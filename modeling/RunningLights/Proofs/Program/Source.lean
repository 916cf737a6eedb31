import RunningLights.Procedure.Program
import RunningLights.Proofs.Program.Operands

/-!
# Programs as source text

A program and the text that a person would write for it:

* `Program.lines` — the lines of a program, its functions first; every body stands in braces, and every statement,
  head and brace on a line of its own;
* `Program.Written` — a program that can be written so: its names are names of the language that mean nothing else,
  and its operands are expressions;
* `Program.IsSource` — the lines of a program, with any blanks around them.
-/

namespace RunningLights

open Procedure

/-! ### Names -/

/-- The words that have a meaning of their own, among them those of types. -/
def keywords : List String :=
  ["for", "if", "else", "do", "while", "switch", "return", "auto", "void", "mutable", "override"] ++
    variableModifiers ++ functionModifiers ++ variableTypes ++ resultTypes ++ counterTypes

/-- The functions that need no definition. -/
def givenNames : List String :=
  ["set", "sleep", "delay", "on", "off", "allOn", "allOff"] ++ Builtin.all.map Builtin.name

/-- A name in ASCII that is no keyword. -/
structure Identifier (name : String) : Prop where
  start : Token.startsWith Token.isNameStart name.toList = true
  chars : ∀ c ∈ name.toList, Token.isNameChar c = true
  free : name ∉ keywords

/-- An identifier that a program can give a meaning to. -/
structure Name (name : String) : Prop extends Identifier name where
  own : name ∉ givenNames

/-! ### Lines -/

/-- Texts with commas between them. -/
def listed : List String → String
  | [] => ""
  | [s] => s
  | s :: ss => s ++ ", " ++ listed ss

/-- A name with texts in parentheses. -/
def applied (name : String) (args : List String) : String := name ++ "(" ++ listed args ++ ")"

def AssignOp.sign : AssignOp → String
  | .set => "="
  | .add => "+="
  | .sub => "-="
  | .mul => "*="
  | .div => "/="
  | .rem => "%="
  | .increment => "++"
  | .decrement => "--"

/-- A statement without its semicolon.  Declarations and assignments to elements of arrays have no text here. -/
def Action.code : Action → String
  | .set channel state => applied "set" [channel.text, state.text]
  | .sleep delay => applied "sleep" (delay.toList.map Operand.text)
  | .allOn => applied "on" []
  | .allOff => applied "off" []
  | .assign target [] op (some value) => target ++ " " ++ op.sign ++ " " ++ value.text
  | .assign target [] op none => target ++ op.sign
  | .callUser name args => applied name (args.map Operand.text)
  | _ => ""

/-- The comparison that keeps a loop running. -/
def Direction.comparison : Direction → (inclusive : Bool) → String
  | .forward, false => "<"
  | .forward, true => "<="
  | .reverse, false => ">"
  | .reverse, true => ">="

/-- The assignment that moves the variable of a loop. -/
def Direction.advance : Direction → AssignOp
  | .forward => .add
  | .reverse => .sub

def LoopHeader.code (h : LoopHeader) : String :=
  "int " ++ h.var ++ " = " ++ h.start.text ++ "; " ++
    h.var ++ " " ++ h.direction.comparison h.inclusive ++ " " ++ h.bound.text ++ "; " ++
    h.var ++ " " ++ h.direction.advance.sign ++ " " ++ h.step.text

/-- A parameter list, in which all parameters are integers. -/
def parameters (params : List String) : List String := params.map ("int " ++ ·)

mutual

def Stmt.lines : Stmt → List String
  | .act a => [a.code ++ ";"]
  | .ret none => ["return;"]
  | .ret (some value) => ["return " ++ value.text ++ ";"]
  | .loop h body => applied "for " [h.code] :: "\x7b" :: (Stmt.linesAll body ++ ["\x7d"])
  | .branch c yes [] => applied "if " [c.text] :: "\x7b" :: (Stmt.linesAll yes ++ ["\x7d"])
  | .branch c yes (s :: ss) =>
    applied "if " [c.text] :: "\x7b" :: (Stmt.linesAll yes ++
      "\x7d" :: "else" :: "\x7b" :: (s.lines ++ Stmt.linesAll ss ++ ["\x7d"]))
  | .doLoop body c =>
    "do" :: "\x7b" :: (Stmt.linesAll body ++ ["\x7d", applied "while " (c.toList.map Operand.text) ++ ";"])
  | .lambda name capture params body =>
    applied ("auto " ++ name ++ " = [" ++ capture ++ "]") (parameters params) :: "\x7b" ::
      (Stmt.linesAll body ++ ["\x7d;"])

def Stmt.linesAll : List Stmt → List String
  | [] => []
  | s :: ss => s.lines ++ Stmt.linesAll ss

end

/-- The lines of a function, which returns an integer. -/
def FunctionDef.lines (f : FunctionDef) : List String :=
  applied ("int " ++ f.name) (parameters f.params) :: "\x7b" :: (Stmt.linesAll f.body ++ ["\x7d"])

def Program.lines (p : Program) : List String := p.functions.flatMap FunctionDef.lines ++ Stmt.linesAll p.body

/-! ### Programs that can be written -/

/-- An action that stands in a line of its own and declares nothing. -/
def Action.Written : Action → Prop
  | .set channel state => channel.Printed ∧ state.Printed
  | .sleep delay => ∀ o ∈ delay, o.Printed
  | .allOn => True
  | .allOff => True
  | .assign target indices op value =>
    Name target ∧ indices = [] ∧ (value = none ↔ op ∈ [AssignOp.increment, .decrement]) ∧ ∀ o ∈ value, o.Printed
  | .callUser name args => Name name ∧ ∀ o ∈ args, o.Printed
  | _ => False

structure LoopHeader.Written (h : LoopHeader) : Prop where
  var : Name h.var
  start : h.start.Printed
  bound : h.bound.Printed
  step : h.step.Printed

/-- What a lambda captures: names and the signs of references and copies. -/
structure Capture (capture : String) : Prop where
  trim : Text.trim capture.toList = capture.toList
  chars : ∀ c ∈ capture.toList, (Token.isNameChar c || [' ', ',', '&', '='].contains c) = true

mutual

def Stmt.Written : Stmt → Prop
  | .act a => a.Written
  | .ret value => ∀ o ∈ value, o.Printed
  | .loop h body => h.Written ∧ Stmt.WrittenAll body
  | .branch c yes no => c.Printed ∧ Stmt.WrittenAll yes ∧ Stmt.WrittenAll no
  | .doLoop body c => (∃ o, c = some o ∧ o.Printed) ∧ Stmt.WrittenAll body
  | .lambda name capture params body =>
    Name name ∧ Capture capture ∧ (∀ param ∈ params, Name param) ∧ Stmt.WrittenAll body

def Stmt.WrittenAll : List Stmt → Prop
  | [] => True
  | s :: ss => s.Written ∧ Stmt.WrittenAll ss

end

structure FunctionDef.Written (f : FunctionDef) : Prop where
  name : Name f.name
  params : ∀ param ∈ f.params, Name param
  body : Stmt.WrittenAll f.body

structure Program.Written (p : Program) : Prop where
  functions : ∀ f ∈ p.functions, f.Written
  body : Stmt.WrittenAll p.body

/-! ### Texts of lines -/

/-- Lines with blanks before each: the ends of lines, indentation and blank lines. -/
inductive Laid : List String → List Char → Prop
  | nil : Laid [] []
  | cons (blanks : List Char) {line : String} {lines : List String} {cs : List Char} :
      (∀ c ∈ blanks, Text.isBlank c = true) → Laid lines cs → Laid (line :: lines) (blanks ++ line.toList ++ cs)

/-- The first line of a text, with the blanks before it. -/
theorem Laid.of_cons {line : String} {lines : List String} {cs : List Char} (h : Laid (line :: lines) cs) :
    ∃ blanks cs', (∀ c ∈ blanks, Text.isBlank c = true) ∧ Laid lines cs' ∧
      ∀ rest, cs ++ rest = blanks ++ (line.toList ++ (cs' ++ rest)) := by
  cases h with
  | cons blanks hb hrest => exact ⟨blanks, _, hb, hrest, fun rest => by simp⟩

theorem Laid.of_singleton {line : String} {cs : List Char} (h : Laid [line] cs) :
    ∃ blanks, (∀ c ∈ blanks, Text.isBlank c = true) ∧ ∀ rest, cs ++ rest = blanks ++ (line.toList ++ rest) := by
  obtain ⟨blanks, cs', hb, hnil, htext⟩ := h.of_cons
  cases hnil
  exact ⟨blanks, hb, htext⟩

theorem Laid.of_append {lines lines' : List String} {cs : List Char} (h : Laid (lines ++ lines') cs) :
    ∃ cs₁ cs₂, cs = cs₁ ++ cs₂ ∧ Laid lines cs₁ ∧ Laid lines' cs₂ := by
  induction lines generalizing cs with
  | nil => exact ⟨[], cs, rfl, .nil, h⟩
  | cons line lines ih =>
    cases h with
    | cons blanks hb hrest =>
      obtain ⟨cs₁, cs₂, rfl, h₁, h₂⟩ := ih hrest
      exact ⟨_, cs₂, (List.append_assoc ..).symm, .cons blanks hb h₁, h₂⟩

/-- A text of the lines of a program. -/
def Program.IsSource (p : Program) (source : String) : Prop :=
  ∃ cs blanks, Laid p.lines cs ∧ (∀ c ∈ blanks, Text.isBlank c = true) ∧ source.toList = cs ++ blanks

/-! ### Lists are tame -/

namespace Procedure

theorem tame_of_name {cs : List Char} (h : ∀ c ∈ cs, Token.isNameChar c = true) : Tame (· ∉ breaks) cs :=
  .of_forall (fun c hc => not_mem_of_class (by decide) (h c hc)) fun c hc => not_mem_of_class (by decide) (h c hc)

theorem tame_listed {texts : List String} (h : ∀ s ∈ texts, Tame (· ∉ breaks) s.toList) :
    Tame (· ∉ stops) (listed texts).toList := by
  induction texts with
  | nil => exact ⟨.nil, rfl⟩
  | cons s ss ih =>
    obtain ⟨hs, hss⟩ := List.forall_mem_cons.1 h
    cases ss with
    | nil => exact hs.stops
    | cons s' ss =>
      have hcomma : Tame (· ∉ stops) ", ".toList := ⟨.of_forall (by decide), by decide⟩
      simpa only [listed, String.toList_append] using (hs.stops.append hcomma).append (ih hss)

theorem mem_listed {texts : List String} {c : Char} (h : c ∈ (listed texts).toList) :
    (∃ s ∈ texts, c ∈ s.toList) ∨ c ∈ [',', ' '] := by
  induction texts with
  | nil => cases h
  | cons s ss ih =>
    cases ss with
    | nil => exact .inl ⟨s, List.mem_cons_self, h⟩
    | cons s' ss =>
      simp only [listed, String.toList_append, List.mem_append] at h
      rcases h with (h | h) | h
      · exact .inl ⟨s, List.mem_cons_self, h⟩
      · exact .inr h
      · exact (ih h).imp_left fun ⟨t, ht, hc⟩ => ⟨t, List.mem_cons_of_mem _ ht, hc⟩

theorem tame_applied {name : String} {texts : List String} (hname : Tame (· ∉ stops) name.toList)
    (h : ∀ s ∈ texts, Tame (· ∉ breaks) s.toList) : Tame (· ∉ stops) (applied name texts).toList := by
  have hp : Tame (· ∉ stops) ('(' :: (listed texts).toList ++ [')']) :=
    ((tame_listed h).mono fun _ _ _ => trivial).parens
  simpa [applied] using hname.append hp

end Procedure

end RunningLights
