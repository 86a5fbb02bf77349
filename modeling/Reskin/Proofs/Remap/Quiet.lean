import Reskin.Proofs.Remap.Fence

/-!
# Names that close no fence

A quiet text has neither a line feed nor a closing rule in it. Generated names and paths of buffer
files differ from those they stand for by letters and digits only, which no rule holds; so they are
quiet if the old ones are, and every generated name carries a mark of generated names.

## Main definitions

* `Text.Alphanumeric`: ASCII letters and digits, at least one
* `Remap.Quiet`: texts without a line feed and without a closing rule
* `Remap.Foreign`: texts of characters that no rule holds

## Main results

* `Remap.Quiet.append_foreign`: foreign characters between quiet texts
* `Remap.Quiet.rename`, `Remap.Quiet.bufferFile`: generated names and paths
* `Naming.isGenerated_rename`: generated names are recognised as such
-/

namespace Reskin

/-- ASCII letters and digits, at least one. -/
def Text.Alphanumeric (t : Text) : Prop := t ≠ [] ∧ ∀ c ∈ t, c.isAlphanum = true

instance (t : Text) : Decidable t.Alphanumeric :=
  haveI : Decidable (∀ c ∈ t, c.isAlphanum = true) := List.decidableBAll _ t
  inferInstanceAs (Decidable (t ≠ [] ∧ ∀ c ∈ t, c.isAlphanum = true))

namespace Naming

theorem splitFolder_append (path : Text) :
    (splitFolder path).1 ++ (splitFolder path).2 = path := by
  simp only [splitFolder, ← List.reverse_append, List.takeWhile_append_dropWhile,
    List.reverse_reverse]

theorem stem_prefix_self (file : Text) : stem file <+: file := by
  unfold stem
  split
  · next l r h => exact ⟨['.'] ++ r, by simpa using (Text.splitLast_eq_some h).symm⟩
  · exact List.prefix_rfl

end Naming

namespace Remap

open Fence (shortestRule)

/-- Without a line feed and without a closing rule. -/
structure Quiet (t : Text) : Prop where
  newline : '\n' ∉ t
  rule : ¬ shortestRule <:+: t

/-- Of characters that neither end a line nor stand in a rule. -/
def Foreign (t : Text) : Prop := ∀ c ∈ t, c ≠ '\n' ∧ c ≠ ';' ∧ c ≠ ' ' ∧ c ≠ '-'

instance (t : Text) : Decidable (Foreign t) :=
  List.decidableBAll (fun c => c ≠ '\n' ∧ c ≠ ';' ∧ c ≠ ' ' ∧ c ≠ '-') t

theorem mem_shortestRule {c : Char} (h : c ∈ shortestRule) : c = ';' ∨ c = ' ' ∨ c = '-' := by
  simp only [shortestRule, List.mem_cons] at h
  rcases h with h | h | h
  · exact .inl h
  · exact .inr (.inl h)
  · exact .inr (.inr (List.eq_of_mem_replicate h))

theorem Foreign.not_mem_rule {t : Text} (h : Foreign t) {c : Char} (hc : c ∈ t) :
    c ∉ shortestRule := by
  intro hr
  obtain ⟨-, h1, h2, h3⟩ := h c hc
  rcases mem_shortestRule hr with h | h | h
  · exact h1 h
  · exact h2 h
  · exact h3 h

theorem Foreign.append {a b : Text} (ha : Foreign a) (hb : Foreign b) : Foreign (a ++ b) := by
  intro c hc
  rcases List.mem_append.1 hc with hc | hc
  · exact ha c hc
  · exact hb c hc

theorem foreign_of_alphanum {t : Text} (h : ∀ c ∈ t, c.isAlphanum = true) : Foreign t := by
  intro c hc
  have := h c hc
  refine ⟨?_, ?_, ?_, ?_⟩ <;> rintro rfl <;> revert this <;> decide

theorem Quiet.of_infix {a b : Text} (hb : Quiet b) (h : a <:+: b) : Quiet a :=
  ⟨fun hn => hb.newline (h.subset hn), fun hr => hb.rule (hr.trans h)⟩

theorem quiet_nil : Quiet [] := ⟨by simp, by decide⟩

/-- Quiet lines hold no rule when they are written one after the other. -/
theorem not_shortestRule_infix_unlines {ls : List Text} (h : ∀ l ∈ ls, Quiet l)
    (e : Text.LineEnding) : ¬ shortestRule <:+: Text.unlines e ls := by
  rw [← Fence.ruleFree_iff]
  intro line hline hi
  rw [Text.lines_unlines fun l hl => (h l hl).newline] at hline
  obtain ⟨l, hl, rfl⟩ := List.mem_map.1 hline
  rw [Text.infix_append_blank_iff (by decide : shortestRule.getLast? = some '-') (by decide)
    e.blank] at hi
  exact (h l hl).rule hi

/-- **Foreign characters between quiet texts** keep them quiet. -/
theorem Quiet.append_foreign {a w b : Text} (ha : Quiet a) (hb : Quiet b) (hw : Foreign w)
    (hne : w ≠ []) : Quiet (a ++ w ++ b) := by
  constructor
  · rw [List.mem_append, List.mem_append]
    rintro ((h | h) | h)
    · exact ha.newline h
    · exact (hw _ h).1 rfl
    · exact hb.newline h
  · intro h
    obtain ⟨c, w, rfl⟩ := List.exists_cons_of_ne_nil hne
    have hhead : ∀ d ∈ shortestRule.head?, d ∉ w := by
      rintro d ⟨⟩ hd
      exact hw.not_mem_rule (List.mem_cons_of_mem _ hd) (by decide)
    rw [List.append_assoc, List.cons_append,
      Text.infix_append_cons (hw.not_mem_rule List.mem_cons_self),
      Text.infix_append_right_iff hhead] at h
    exact h.elim ha.rule hb.rule

theorem quiet_of_foreign {w : Text} (hw : Foreign w) : Quiet w := by
  by_cases hne : w = []
  · exact hne ▸ quiet_nil
  · simpa using quiet_nil.append_foreign quiet_nil hw hne

theorem foreign_remapBlendMark : Foreign Naming.remapBlendMark := by decide

theorem foreign_remapFixMark : Foreign Naming.remapFixMark := by decide

/-! ## Generated names -/

section Names

variable {n v : Text} (hv : Foreign v)

include hv

theorem Quiet.blendName (hn : Quiet n) : Quiet (Naming.blendName n v) := by
  have hmark := hv.append foreign_remapBlendMark
  unfold Naming.blendName
  split
  · next left right h =>
    have he := Text.splitLast_eq_some h
    have hl : left <:+: n := ⟨[], Naming.blendMark ++ right, by simp [he]⟩
    have hr : right <:+: n := ⟨left ++ Naming.blendMark, [], by simp [he]⟩
    have := (hn.of_infix hl).append_foreign (hn.of_infix hr) hmark (by simp [Naming.remapBlendMark])
    simpa using this
  · have := hn.append_foreign quiet_nil hmark (by simp [Naming.remapBlendMark])
    simpa using this

theorem Quiet.fixName (hn : Quiet n) : Quiet (Naming.fixName n v) := by
  have hmark := hv.append foreign_remapFixMark
  have hne : v ++ Naming.remapFixMark ≠ [] := by simp [Naming.remapFixMark]
  unfold Naming.fixName
  dsimp only
  split
  · exact hn
  · split
    · next stem h =>
      have hs : stem <:+: n := ⟨[], Naming.remapFixMark, by simp [Text.dropEnd?_eq_some.1 h]⟩
      simpa using (hn.of_infix hs).append_foreign quiet_nil hmark hne
    · simpa using hn.append_foreign quiet_nil hmark hne

theorem Quiet.resourceName (hn : Quiet n) : Quiet (Naming.resourceName n v) := by
  have hb := hn.blendName hv
  have hmark : Foreign Naming.resourceMark := by decide
  unfold Naming.resourceName Naming.resourceNamed
  split
  · exact hb
  · simpa using quiet_nil.append_foreign hb hmark (by decide)

/-- **Generated names** are quiet if the old ones are. -/
theorem Quiet.rename (hn : Quiet n) (style : NameStyle) : Quiet (style.rename n v) := by
  cases style with
  | blend => exact hn.blendName hv
  | fix => exact hn.fixName hv
  | resource => exact hn.resourceName hv

theorem Quiet.bufferFile {path : Text} (hp : Quiet path) : Quiet (Naming.bufferFile path v) := by
  have hmark := hv.append foreign_remapBlendMark
  have hne : v ++ Naming.remapBlendMark ≠ [] := by simp [Naming.remapBlendMark]
  have hext : Foreign Naming.bufferExtension := by decide
  have htrim : Quiet (Text.trim path) := hp.of_infix (Text.trim_infix_self path)
  unfold Naming.bufferFile
  obtain ⟨folder, file, hs⟩ : ∃ folder file, Naming.splitFolder (Text.trim path) = (folder, file) :=
    ⟨_, _, rfl⟩
  have hpath : Text.trim path = folder ++ file := by
    have := Naming.splitFolder_append (Text.trim path)
    rw [hs] at this
    exact this.symm
  obtain ⟨rest, hstem⟩ := Naming.stem_prefix_self file
  rw [hs]
  dsimp only
  have hpair : Quiet (folder ++ Naming.stem file) := by
    refine htrim.of_infix ⟨[], rest, ?_⟩
    conv => rhs; rw [hpath, ← hstem]
    simp
  have hname : Quiet (folder ++ Naming.blendName (Naming.stem file) v) := by
    unfold Naming.blendName
    split
    · next left right h =>
      have he := Text.splitLast_eq_some h
      have hl : folder ++ left <:+: folder ++ Naming.stem file :=
        ⟨[], Naming.blendMark ++ right, by simp [he]⟩
      have hr : right <:+: folder ++ Naming.stem file :=
        ⟨folder ++ left ++ Naming.blendMark, [], by simp [he]⟩
      have := (hpair.of_infix hl).append_foreign (hpair.of_infix hr) hmark hne
      simpa using this
    · simpa using hpair.append_foreign quiet_nil hmark hne
  simpa using hname.append_foreign quiet_nil hext (by decide)

end Names

end Remap

namespace Naming

theorem isGenerated_of_infix {n : Text} (h : remapBlendMark <:+: n ∨ remapFixMark <:+: n) :
    isGenerated n = true := by
  rw [isGenerated, Bool.or_eq_true, Text.holds_iff_infix, Text.holds_iff_infix]
  exact h

theorem remapBlendMark_infix_blendName (n v : Text) : remapBlendMark <:+: blendName n v := by
  unfold blendName
  split
  · next left right _ => exact ⟨left ++ v, right, rfl⟩
  · exact ⟨n ++ v, [], by simp⟩

theorem remapFixMark_infix_fixName (n v : Text) : remapFixMark <:+: fixName n v := by
  unfold fixName
  dsimp only
  split
  · next h =>
    obtain ⟨stem, hs⟩ := Option.isSome_iff_exists.1 h
    exact ⟨stem ++ v, [], by simp [Text.dropEnd?_eq_some.1 hs]⟩
  · split
    · next stem _ => exact ⟨stem ++ v, [], by simp⟩
    · exact ⟨n ++ v, [], by simp⟩

/-- **Generated names** carry a mark of generated names. -/
theorem isGenerated_rename (style : NameStyle) (n v : Text) :
    isGenerated (style.rename n v) = true := by
  apply isGenerated_of_infix
  cases style with
  | blend => exact .inl (remapBlendMark_infix_blendName n v)
  | fix => exact .inr (remapFixMark_infix_fixName n v)
  | resource =>
    left
    simp only [NameStyle.rename, resourceName, resourceNamed]
    split
    · exact remapBlendMark_infix_blendName n v
    · exact List.infix_append_of_infix_right (remapBlendMark_infix_blendName n v)

/-- Blanks around a name do not count. -/
theorem isGenerated_trim (n : Text) : isGenerated (Text.trim n) = isGenerated n := by
  rw [Bool.eq_iff_iff, isGenerated, isGenerated, Bool.or_eq_true, Bool.or_eq_true,
    Text.holds_iff_infix, Text.holds_iff_infix, Text.holds_iff_infix, Text.holds_iff_infix,
    Text.infix_trim_iff (by decide +kernel), Text.infix_trim_iff (by decide +kernel)]

end Naming

end Reskin
