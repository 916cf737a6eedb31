import RunningLights.Proofs.Script.Searching
import RunningLights.Script.Executor

/-!
# Where phrases are found

The policy looks for phrases in the text of a script, without regard for what it means.  Of the words that load and
publish modules it finds those that stand at the start of a line, and no others:

* `ModuleWord` — one of the two words stands at a place of a text;
* `StartsLine`, `StartsStatement` — what stands before a place on its line, or in its statement;
* `Executor.run_of_violations` — a script that breaks the policy is rejected and nothing is run;
* `Policy.module_word_reported` — which scripts are refused for loading or publishing modules;
* `Policy.module_word_overlooked` — one that loads a module behind another statement is run.
-/

namespace RunningLights.Script

/-! ### Words and their places -/

/-- One of the words that load and publish modules stands between two parts of a text, and ends where the second
begins. -/
def ModuleWord (text before after : List Char) : Prop :=
  ∃ word ∈ ["import", "export"], text = before ++ word.toList ++ after ∧ Text.startsWord after = false

/-- There is nothing but white space on the line in front of the place. -/
def StartsLine (before : List Char) : Prop :=
  ∃ pre blanks, before = pre ++ blanks ∧ (∀ c ∈ blanks, Text.isBlank c) ∧ ∀ c ∈ pre.getLast?, c = '\n'

/-- The place is the first of the text or behind a semicolon or a brace, white space aside. -/
def StartsStatement (before : List Char) : Prop :=
  ∃ pre blanks, before = pre ++ blanks ∧ (∀ c ∈ blanks, Text.isBlank c) ∧
    ∀ c ∈ pre.getLast?, c = ';' ∨ c = '\x7b' ∨ c = '\x7d'

/-- The phrase of the two words is read where one of them stands behind white space. -/
theorem Piece.reads_moduleWord {text : List Char} :
    Reads [.blanks, .oneOf ["import", "export"], .edge] text ↔
      ∃ gap after, (∀ c ∈ gap, Text.isBlank c) ∧ ModuleWord text gap after := by
  simp only [reads_cons (p := .blanks), reads_cons (p := .oneOf _), skips_blanks, skips_oneOf, reads_edge]
  constructor
  · rintro ⟨_, ⟨gap, hgap, rfl⟩, after, ⟨word, hword, rfl⟩, hafter⟩
    exact ⟨gap, after, hgap, word, hword, (List.append_assoc ..).symm, hafter⟩
  · rintro ⟨gap, after, hgap, word, hword, rfl, hafter⟩
    exact ⟨_, ⟨gap, hgap, List.append_assoc ..⟩, after, ⟨word, hword, rfl⟩, hafter⟩

namespace Policy

/-! ### Rules and their messages -/

theorem message_ne_of_mem_rules :
    ∀ r ∈ rules, r.message ≠ "Code cannot be empty" ∧ r.message ≠ "Infinite loop without break detected" := by
  decide

theorem nodup_messages : (rules.map Rule.message).Nodup := by decide

theorem message_of_violation? {text : List Char} {r : Rule} {v : Violation} (h : violation? text r = some v) :
    v.message = r.message := by
  obtain ⟨n, -, rfl⟩ := Option.map_eq_some_iff.1 h
  rfl

theorem message_of_loopViolation? {text : List Char} {v : Violation} (h : loopViolation? text = some v) :
    v.message = "Infinite loop without break detected" := by
  unfold loopViolation? at h
  split at h
  · cases h
  · exact message_of_violation? h

/-- The messages of the rules differ from each other and from all others, so a message tells which rule has found its
phrase. -/
theorem exists_violation_iff {r : Rule} (hr : r ∈ rules) {source : String} :
    (∃ v ∈ violations source, v.message = r.message) ↔
      source.toList.all Text.isBlank = false ∧ (offset? r.anchor r.phrase none source.toList).isSome := by
  obtain ⟨hempty, hloop⟩ := message_ne_of_mem_rules r hr
  simp only [violations]
  split
  · rename_i hblank
    simp [hblank, Violation.general, hempty.symm]
  · rename_i hblank
    simp only [hblank, true_and, List.mem_append, List.mem_filterMap, Option.mem_toList]
    constructor
    · rintro ⟨v, ⟨r', hr', hv⟩ | hv, hmessage⟩
      · have hsame : r' = r :=
          List.inj_on_of_nodup_map nodup_messages hr' hr ((message_of_violation? hv).symm.trans hmessage)
        subst hsame
        rw [← Option.isSome_map, Option.isSome_iff_exists]
        exact ⟨v, hv⟩
      · exact absurd (hmessage.symm.trans (message_of_loopViolation? hv)) hloop
    · intro h
      obtain ⟨n, hn⟩ := Option.isSome_iff_exists.1 h
      exact ⟨_, .inl ⟨r, hr, Option.map_eq_some_iff.2 ⟨n, hn, rfl⟩⟩, rfl⟩

/-! ### The rule against modules -/

/-- The rule against the words that load and publish modules. -/
def moduleRule : Rule :=
  ⟨.line, [.blanks, .oneOf ["import", "export"], .edge], "Module import/export is not allowed"⟩

theorem moduleRule_mem : moduleRule ∈ rules := by simp [rules, moduleRule]

/-- The rule finds a word exactly if only white space stands before it on its line. -/
theorem isSome_offset?_moduleRule {text : List Char} :
    (offset? moduleRule.anchor moduleRule.phrase none text).isSome ↔
      ∃ before after, ModuleWord text before after ∧ StartsLine before := by
  have hfirm : Piece.firm [.blanks, .oneOf ["import", "export"], .edge] := by decide
  simp only [isSome_offset?, Option.or_none, moduleRule, Anchor.holds_line, Piece.begin_iff_reads hfirm,
    Piece.reads_moduleWord]
  constructor
  · rintro ⟨pre, _, rfl, hpre, gap, after, hgap, word, hword, rfl, hafter⟩
    exact ⟨pre ++ gap, after, ⟨word, hword, by simp, hafter⟩, pre, gap, rfl, hgap, hpre⟩
  · rintro ⟨_, after, ⟨word, hword, rfl, hafter⟩, pre, gap, rfl, hgap, hpre⟩
    exact ⟨pre, gap ++ word.toList ++ after, by simp, hpre, gap, after, hgap, word, hword, rfl, hafter⟩

theorem not_blank_of_moduleWord {text before after : List Char} (h : ModuleWord text before after) :
    text.all Text.isBlank = false := by
  obtain ⟨word, hword, rfl, -⟩ := h
  simp only [List.mem_cons, List.not_mem_nil, or_false] at hword
  rcases hword with rfl | rfl
  · exact List.all_eq_false.2 ⟨'i', by simp, by decide⟩
  · exact List.all_eq_false.2 ⟨'e', by simp, by decide⟩

end Policy

/-! ### Scripts that are rejected -/

/-- An executor that runs nothing rejects a script that breaks the policy, with all violations, and has run nothing
afterwards either. -/
theorem Executor.run_of_violations {e : Executor} (hidle : e.running = false) {source : String}
    (h : Policy.violations source ≠ []) (fast interrupted : Bool) (total : Nat) (baseDelay : Duration) :
    ∃ vs, e.run fast interrupted source total baseDelay =
        (.error (.rejected vs), { e with stopRequested := false }) ∧ Policy.violations source <+: vs := by
  have hvalidate : ∃ vs, validate source = .error vs ∧ Policy.violations source <+: vs := by
    unfold validate
    split
    · exact ⟨_, rfl, List.prefix_rfl⟩
    · split
      · exact ⟨_, rfl, List.prefix_append ..⟩
      · rw [if_neg (by simpa using h)]
        exact ⟨_, rfl, List.prefix_rfl⟩
  obtain ⟨vs, hvs, hprefix⟩ := hvalidate
  refine ⟨vs, ?_, hprefix⟩
  simp [Executor.run, hidle, hvs]

/-! ### Scripts with modules -/

namespace Policy

/-- The rule against modules reports a script exactly if one of its words stands at the start of a line, white space
aside.  A script with such a word is rejected by every executor that is free, and nothing of it is run. -/
theorem module_word_reported (source : String) :
    ((∃ v ∈ violations source, v.message = moduleRule.message) ↔
      ∃ before after, ModuleWord source.toList before after ∧ StartsLine before) ∧
    ∀ before after, ModuleWord source.toList before after → StartsLine before →
      ∀ (e : Executor) (fast interrupted : Bool) (total : Nat) (baseDelay : Duration), e.running = false →
        ∃ vs, e.run fast interrupted source total baseDelay =
            (.error (.rejected vs), { e with stopRequested := false }) ∧
          ∃ v ∈ vs, v.message = moduleRule.message := by
  have hrule : (∃ v ∈ violations source, v.message = moduleRule.message) ↔
      ∃ before after, ModuleWord source.toList before after ∧ StartsLine before := by
    rw [exists_violation_iff moduleRule_mem, isSome_offset?_moduleRule]
    constructor
    · exact And.right
    · rintro ⟨before, after, hword, hline⟩
      exact ⟨not_blank_of_moduleWord hword, before, after, hword, hline⟩
  refine ⟨hrule, ?_⟩
  intro before after hword hline e fast interrupted total baseDelay hidle
  obtain ⟨v, hv, hmessage⟩ := hrule.2 ⟨before, after, hword, hline⟩
  obtain ⟨vs, hrun, hprefix⟩ := e.run_of_violations hidle (List.ne_nil_of_mem hv) fast interrupted total baseDelay
  exact ⟨vs, hrun, v, hprefix.subset hv, hmessage⟩

/-- A word is reported behind white space on a line of its own. -/
theorem module_word_reported_indented :
    StartsLine "on();\n  ".toList ∧ ModuleWord "on();\n  import \"x\";".toList "on();\n  ".toList " \"x\";".toList ∧
      ∃ vs, ((Executor.ofLimits .standard).generate "on();\n  import \"x\";" 2 (.ofMillis 20)).1 =
          .error (.rejected vs) ∧ ∃ v ∈ vs, v.message = "Module import/export is not allowed" := by
  have hline : StartsLine "on();\n  ".toList :=
    ⟨['o', 'n', '(', ')', ';', '\n'], [' ', ' '], by decide, by simp; decide, by simp⟩
  have hword : ModuleWord "on();\n  import \"x\";".toList "on();\n  ".toList " \"x\";".toList :=
    ⟨"import", by simp, by decide, by decide⟩
  obtain ⟨vs, hrun, hv⟩ := (module_word_reported "on();\n  import \"x\";").2 _ _ hword hline (.ofLimits .standard)
    true false 2 (.ofMillis 20) rfl
  exact ⟨hline, hword, vs, congrArg Prod.fst hrun, hv⟩

/-- A script that loads a module behind another statement of its line. -/
def moduleBehind : String := "on(); import \"x\";"

def moduleBehindTree : ScriptTree :=
  ⟨[.term (.call "on" [] ⟨1, 1⟩), .load (.literal (.text "x")) ⟨1, 7⟩], []⟩

/-- Behind another statement of its line a word is overlooked: the script passes validation, with a statement that
loads a module, and ends only when that is run. -/
theorem module_word_overlooked :
    (∃ before after, ModuleWord moduleBehind.toList before after ∧ StartsStatement before) ∧
      violations moduleBehind = [] ∧ validate moduleBehind = .ok moduleBehindTree ∧
      ((Executor.ofLimits .standard).generate moduleBehind 2 (.ofMillis 20)).1 =
        .error (.runtime (.noModule "x") ⟨1, 7⟩) := by
  have hpolicy : violations moduleBehind = [] := by decide +kernel
  have hblank : moduleBehind.toList.all Text.isBlank = false := by decide
  have hparse : ScriptTree.parse moduleBehind = .ok moduleBehindTree := by cbv
  have hvalidate : validate moduleBehind = .ok moduleBehindTree := by
    simp only [validate, hblank, hparse, hpolicy]
    rfl
  refine ⟨⟨"on(); ".toList, " \"x\";".toList, ?_, ?_⟩, hpolicy, hvalidate, ?_⟩
  · exact ⟨"import", by simp, by decide, by decide⟩
  · exact ⟨['o', 'n', '(', ')', ';'], [' '], by decide, List.forall_mem_singleton.2 (by decide), by simp⟩
  · simp only [Executor.generate, Executor.run, hvalidate]
    rfl

end Policy

end RunningLights.Script
