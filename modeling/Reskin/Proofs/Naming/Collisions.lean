import Reskin.Proofs.Naming.BufferFile

/-!
# Generated names against one another and against the old ones

A name in the fix style is what is left of the old name without the ending it has already, followed
by the ending it is given. So names that lack the ending stay apart, and a second renaming changes
nothing. In the blend style the marks of two equal names stand in the same place, which leaves the
old names equal up to a `Blend` at the end of one of them. A generated buffer file differs from the
file it is made from by the length of its name, in whatever style the path is written.

## Main definitions

* `Naming.fixStem`: a name without the ending of the fix style

## Main results

* `Naming.fixName_eq_fixName_iff`: when two names in the fix style are the same
* `Naming.fixName_fixName`: a second renaming changes nothing
* `Naming.collisions`: when generated section names are the same, in either style
* `Naming.bufferFile_ne`, `Naming.bufferFile_spec`: what is generated beside a buffer file
-/

namespace Reskin.Naming

open NameStyle (blendMould)

/-! ## The fix style -/

/-- A name without the ending that it would be given for the variant or, if it lacks that, without
the mark it ends in. -/
def fixStem (name variant : Text) : Text :=
  match Text.dropEnd? (variant ++ remapFixMark) name with
  | some stem => stem
  | none => (Text.dropEnd? remapFixMark name).getD name

theorem fixName_eq_fixStem_append (n v : Text) :
    fixName n v = fixStem n v ++ (v ++ remapFixMark) := by
  unfold fixName fixStem Text.endsWith
  dsimp only
  cases hend : Text.dropEnd? (v ++ remapFixMark) n with
  | some stem => exact Text.dropEnd?_eq_some.1 hend
  | none => cases Text.dropEnd? remapFixMark n <;> rfl

theorem fixStem_append (stem v : Text) : fixStem (stem ++ (v ++ remapFixMark)) v = stem := by
  rw [fixStem, Text.dropEnd?_eq_some.2 rfl]

/-- A name that does not end in the mark is its own stem. -/
theorem fixStem_of_not_suffix {n : Text} (hn : ¬ remapFixMark <:+ n) (v : Text) :
    fixStem n v = n := by
  have hmark : Text.dropEnd? remapFixMark n = none := by
    refine Option.eq_none_iff_forall_ne_some.2 fun stem h => hn ?_
    exact ⟨stem, (Text.dropEnd?_eq_some.1 h).symm⟩
  have hend : Text.dropEnd? (v ++ remapFixMark) n = none := by
    refine Option.eq_none_iff_forall_ne_some.2 fun stem h => hn ?_
    exact ⟨stem ++ v, by rw [Text.dropEnd?_eq_some.1 h, List.append_assoc]⟩
  rw [fixStem, hend, hmark, Option.getD_none]

/-- **Two names in the fix style** are the same for a variant exactly if their stems are. -/
theorem fixName_eq_fixName_iff {n m v : Text} :
    fixName n v = fixName m v ↔ fixStem n v = fixStem m v := by
  rw [fixName_eq_fixStem_append, fixName_eq_fixStem_append]
  exact List.append_left_inj _

/-- **A second renaming** in the fix style changes nothing. -/
theorem fixName_fixName (n v : Text) : fixName (fixName n v) v = fixName n v := by
  rw [fixName_eq_fixStem_append (fixName n v), fixName_eq_fixStem_append n, fixStem_append]

/-- **When generated section names are the same** for a variant. In the blend style that is so for
names that are equal up to a `Blend` at the end of one, if the other holds none. In the fix style
names that lack its mark at their end stay apart, and what has been renamed stays as it is. -/
theorem collisions (n m v : Text) :
    (blendName n v = blendName m v ↔
      n = m ∨ (¬ blendMark <:+: n ∧ m = n ++ blendMark) ∨
        (¬ blendMark <:+: m ∧ n = m ++ blendMark)) ∧
      (¬ remapFixMark <:+ n → ¬ remapFixMark <:+ m → fixName n v = fixName m v → n = m) ∧
      fixName (fixName n v) v = fixName n v := by
  refine ⟨?_, fun hn hm h => ?_, fixName_fixName n v⟩
  · exact blendName_eq_blendName_iff.trans (or_congr_right or_comm)
  · have hstem := fixName_eq_fixName_iff.1 h
    rwa [fixStem_of_not_suffix hn, fixStem_of_not_suffix hm] at hstem

/-- Of three sections the first two come to one name in the blend style; in the fix style the
third stays apart from them. -/
theorem dress_and_hat :
    blendName "Dress".toList "Boss".toList = blendName "DressBlend".toList "Boss".toList ∧
      fixName "Dress".toList "Boss".toList ≠ fixName "Hat".toList "Boss".toList := by
  constructor
  · exact (collisions _ _ _).1.2 (.inr (.inl ⟨by decide, by decide⟩))
  · intro h
    have hsame := (collisions _ _ _).2.1 (by decide) (by decide) h
    exact absurd hsame (by decide)

/-! ## Buffer files -/

/-- A name in the blend style is longer than the old one, for the mark is longer than `Blend`. -/
theorem length_lt_length_blendName (n v : Text) : n.length < (blendName n v).length := by
  have hlonger : blendMark.length < remapBlendMark.length := by decide
  unfold blendName
  split
  · next left right h =>
    have hn := congrArg List.length (Text.splitLast_eq_some h)
    simp only [List.length_append] at hn ⊢
    omega
  · simp only [List.length_append]
    omega

/-- The extension of generated files is what follows their last full stop. -/
theorem stem_append_bufferExtension (n : Text) : stem (n ++ bufferExtension) = n := by
  have hsplit : Text.splitLast ['.'] (n ++ '.' :: ['b', 'u', 'f']) = some (n, ['b', 'u', 'f']) :=
    Text.splitLast_append n (by decide)
  rw [stem, show n ++ bufferExtension = n ++ '.' :: ['b', 'u', 'f'] from rfl, hsplit]

/-- The path of a generated file, cut behind its last slash. -/
theorem bufferFile_eq (f v : Text) : bufferFile f v = (splitFolder (Text.trim f)).1 ++
    (blendName (stem (splitFolder (Text.trim f)).2) v ++ bufferExtension) := by
  rw [← List.append_assoc]
  rfl

/-- **No file is generated in its own place**, whatever the variant is: the name without the
extension grows. -/
theorem bufferFile_ne (f v : Text) : bufferFile f v ≠ Text.trim f := by
  intro h
  have hpath := splitFolder_append (Text.trim f)
  rw [bufferFile_eq] at h
  generalize splitFolder (Text.trim f) = cut at h hpath
  obtain ⟨folder, file⟩ := cut
  have hfile : blendName (stem file) v ++ bufferExtension = file :=
    List.append_cancel_left (h.trans hpath.symm)
  have hstem : blendName (stem file) v = stem file := by
    conv_rhs => rw [← hfile, stem_append_bufferExtension]
  have hlt := length_lt_length_blendName (stem file) v
  rw [hstem] at hlt
  omega

section Variant

variable {v : Text} (hv : ∀ c ∈ v, isSlash c = false)

include hv

/-- **What is generated beside a buffer file**, for a variant without slashes. It is another file
in the same folder, up to the last slash as that is written; its name ends in the extension and
holds the mark. For two files it is the same exactly if these lie in one folder and their names
without extensions are equal up to a `Blend` at the end of one, if the other holds none. -/
theorem bufferFile_spec (f g : Text) :
    bufferFile f v ≠ Text.trim f ∧
      (∃ name, bufferFile f v = (splitFolder (Text.trim f)).1 ++ name ∧
        splitFolder (bufferFile f v) = ((splitFolder (Text.trim f)).1, name) ∧
        bufferExtension <:+ name ∧ remapBlendMark <:+: name) ∧
      (bufferFile f v = bufferFile g v ↔
        (splitFolder (Text.trim f)).1 = (splitFolder (Text.trim g)).1 ∧
          Coincide (stem (splitFolder (Text.trim f)).2) (stem (splitFolder (Text.trim g)).2)) := by
  refine ⟨bufferFile_ne f v, ⟨_, bufferFile_eq f v, splitFolder_bufferFile hv f, ⟨_, rfl⟩, ?_⟩, ?_⟩
  · exact (remapBlendMark_infix_blendName _ v).trans (List.prefix_append _ _).isInfix
  · exact (bufferFile_eq_bufferFile_iff hv).trans clash_iff

end Variant

/-- The kind of slash makes two folders of one, so nothing generated in them is the same. -/
theorem bufferFile_of_slashes :
    bufferFile "Body/Dress.buf".toList "Boss".toList ≠ "Body/Dress.buf".toList ∧
      bufferFile "Body/Dress.buf".toList "Boss".toList ≠
        bufferFile "Body\\Dress.buf".toList "Boss".toList := by
  have hv : ∀ c ∈ "Boss".toList, isSlash c = false := by simp [isSlash]
  obtain ⟨hself, -, hsame⟩ := bufferFile_spec hv "Body/Dress.buf".toList "Body\\Dress.buf".toList
  refine ⟨hself, fun h => ?_⟩
  exact absurd (hsame.1 h).1 (by decide +kernel)

end Reskin.Naming
