import Mathlib.Data.List.Infix
import Reskin.Proofs.Naming

/-!
# When generated buffer files are the same

A generated buffer file stands in the folder of the file it is made from, under that name without
its extension and renamed in the blend style. So the extension is lost, and a name that ends in
`Blend` is renamed as the same name without it, if that holds no other `Blend`. Nothing else makes
two generated files the same.

## Main definitions

* `Naming.Coincide`: names that are renamed to the same name
* `Naming.Clash`: paths that the same buffer file is generated from

## Main results

* `Naming.blendName_eq_blendName_iff`: when two names in the blend style are the same
* `Naming.bufferFile_eq_bufferFile_iff`: when two generated buffer files are the same
-/

namespace Reskin.Naming

open NameStyle (blendMould)

/-! ## Names -/

/-- **Names that are renamed to the same name**: equal ones, and one without any `Blend` beside the
same with a `Blend` at its end. -/
def Coincide (n m : Text) : Prop :=
  n = m ∨ (¬ blendMark <:+: m ∧ n = m ++ blendMark) ∨ (¬ blendMark <:+: n ∧ m = n ++ blendMark)

instance (n m : Text) : Decidable (Coincide n m) := by
  unfold Coincide
  infer_instance

/-- A `Blend` at the end of a name without another one makes no difference. -/
theorem blendName_append_blendMark {n : Text} (hn : ¬ blendMark <:+: n) (v : Text) :
    blendName (n ++ blendMark) v = blendName n v := by
  have hmark : Text.splitLast blendMark (n ++ blendMark) = some (n, []) := by
    have hlast : Text.splitLast blendMark (n ++ blendMark ++ []) = some (n, []) :=
      Text.splitLast_of_absent (by decide) n (by simp)
    rwa [List.append_nil] at hlast
  have hnone : Text.splitLast blendMark n = none := (Text.splitLast_eq_none_iff (by decide)).2 hn
  simp only [blendName, hmark, hnone, List.append_nil]

theorem Coincide.blendName_eq {n m : Text} (h : Coincide n m) (v : Text) :
    blendName n v = blendName m v := by
  rcases h with rfl | ⟨hm, rfl⟩ | ⟨hn, rfl⟩
  · rfl
  · exact blendName_append_blendMark hm v
  · exact (blendName_append_blendMark hn v).symm

/-- Equal names in the blend style have equal pieces. -/
theorem blendMould_eq_of_blendName_eq {n m v : Text} (h : blendName n v = blendName m v) :
    (blendMould n v).before = (blendMould m v).before ∧
      (blendMould n v).behind = (blendMould m v).behind := by
  rw [← NameStyle.name_blendMould, ← NameStyle.name_blendMould, Mould.name, Mould.name,
    NameStyle.mark_blendMould, NameStyle.mark_blendMould] at h
  have hmark : remapBlendMark = ['R', 'e', 'm', 'a', 'p'] ++ blendMark := rfl
  rw [hmark, ← List.append_assoc, ← List.append_assoc] at h
  obtain ⟨hbefore, hbehind⟩ := Text.last_mark_unique (by decide) h
    (NameStyle.not_blendMark_infix_behind n v) (NameStyle.not_blendMark_infix_behind m v)
  exact ⟨List.append_cancel_right hbefore, hbehind⟩

/-- **Two names in the blend style** are the same for a variant exactly if the old names coincide. -/
theorem blendName_eq_blendName_iff {n m v : Text} :
    blendName n v = blendName m v ↔ Coincide n m := by
  refine ⟨fun h => ?_, fun h => h.blendName_eq v⟩
  obtain ⟨hbefore, hbehind⟩ := blendMould_eq_of_blendName_eq h
  have absent {t : Text} (ht : Text.splitLast blendMark t = none) : ¬ blendMark <:+: t :=
    (Text.splitLast_eq_none_iff (by decide)).1 ht
  unfold blendMould at hbefore hbehind
  rcases hn : Text.splitLast blendMark n with _ | ⟨left, right⟩ <;>
    rcases hm : Text.splitLast blendMark m with _ | ⟨left', right'⟩ <;>
    simp only [hn, hm] at hbefore hbehind <;>
    have hside := List.append_cancel_right hbefore
  · exact .inl hside
  · exact .inr (.inr ⟨absent hn, by rw [Text.splitLast_eq_some hm, ← hbehind, hside, List.append_nil]⟩)
  · exact .inr (.inl ⟨absent hm, by rw [Text.splitLast_eq_some hn, hbehind, hside, List.append_nil]⟩)
  · exact .inl (by rw [Text.splitLast_eq_some hn, Text.splitLast_eq_some hm, hbehind, hside])

/-! ## Files -/

/-- A path is cut behind its last slash. -/
theorem splitFolder_of_append {folder file : Text} (hfile : ∀ c ∈ file, isSlash c = false)
    (hfolder : ∀ c ∈ folder.getLast?, isSlash c = true) :
    splitFolder (folder ++ file) = (folder, file) := by
  have hall : ∀ c ∈ file.reverse, (!isSlash c) = true := by simpa using hfile
  have hdrop : folder.reverse.dropWhile (!isSlash ·) = folder.reverse := by
    rcases List.eq_nil_or_concat folder with rfl | ⟨init, c, rfl⟩
    · rfl
    · have hc : isSlash c = true := hfolder c (by simp)
      simp [hc]
  have htake : folder.reverse.takeWhile (!isSlash ·) = [] := by
    rw [← List.append_cancel_right_eq _ (folder.reverse.dropWhile (!isSlash ·)),
      List.takeWhile_append_dropWhile, hdrop, List.nil_append]
  rw [splitFolder, List.reverse_append, List.dropWhile_append_of_pos hall,
    List.takeWhile_append_of_pos hall, hdrop, htake]
  simp

theorem splitFolder_spec (path : Text) : (∀ c ∈ (splitFolder path).2, isSlash c = false) ∧
    ∀ c ∈ (splitFolder path).1.getLast?, isSlash c = true := by
  constructor
  · intro c hc
    simpa using List.mem_takeWhile_imp (List.mem_reverse.1 hc)
  · intro c hc
    rw [splitFolder, List.getLast?_reverse] at hc
    cases hd : path.reverse.dropWhile (!isSlash ·) with
    | nil => simp [hd] at hc
    | cons d rest =>
      have hhead := List.head_dropWhile_not (p := (!isSlash ·)) (l := path.reverse) (by simp [hd])
      simp only [hd, List.head_cons, List.head?_cons, Option.mem_some_iff] at hc hhead
      subst hc
      simpa using hhead

/-- **Paths that the same buffer file is generated from**: they lie in one folder, and their names
without extensions coincide. -/
structure Clash (p q : Text) : Prop where
  folder : (splitFolder (Text.trim p)).1 = (splitFolder (Text.trim q)).1
  stem : Coincide (stem (splitFolder (Text.trim p)).2) (stem (splitFolder (Text.trim q)).2)

theorem clash_iff {p q : Text} : Clash p q ↔
    (splitFolder (Text.trim p)).1 = (splitFolder (Text.trim q)).1 ∧
      Coincide (stem (splitFolder (Text.trim p)).2) (stem (splitFolder (Text.trim q)).2) :=
  ⟨fun h => ⟨h.folder, h.stem⟩, fun h => ⟨h.1, h.2⟩⟩

instance (p q : Text) : Decidable (Clash p q) := decidable_of_iff _ clash_iff.symm

section Variant

variable {v : Text} (hv : ∀ c ∈ v, isSlash c = false)

include hv

/-- A name without slashes is renamed to one without slashes. -/
theorem isSlash_of_mem_blendName {n : Text} (hn : ∀ c ∈ n, isSlash c = false) :
    ∀ c ∈ blendName n v, isSlash c = false := by
  have hmark : ∀ c ∈ remapBlendMark, isSlash c = false := by
    simp [remapBlendMark, blendMark, isSlash]
  unfold blendName
  intro c hc
  split at hc
  · next left right hs =>
    rw [Text.splitLast_eq_some hs] at hn
    simp only [List.mem_append] at hn hc
    rcases hc with ((hc | hc) | hc) | hc
    · exact hn c (.inl (.inl hc))
    · exact hv c hc
    · exact hmark c hc
    · exact hn c (.inr hc)
  · simp only [List.mem_append] at hc
    rcases hc with (hc | hc) | hc
    · exact hn c hc
    · exact hv c hc
    · exact hmark c hc

/-- **The folder of a generated buffer file** is that of the old one. -/
theorem splitFolder_bufferFile (p : Text) : splitFolder (bufferFile p v) =
    ((splitFolder (Text.trim p)).1,
      blendName (stem (splitFolder (Text.trim p)).2) v ++ bufferExtension) := by
  obtain ⟨hfile, hfolder⟩ := splitFolder_spec (Text.trim p)
  have hstem : ∀ c ∈ stem (splitFolder (Text.trim p)).2, isSlash c = false :=
    fun c hc => hfile c ((stem_prefix_self _).subset hc)
  have hext : ∀ c ∈ bufferExtension, isSlash c = false := by
    simp [bufferExtension, isSlash]
  show splitFolder ((splitFolder (Text.trim p)).1 ++
    blendName (stem (splitFolder (Text.trim p)).2) v ++ bufferExtension) = _
  rw [List.append_assoc]
  refine splitFolder_of_append (fun c hc => ?_) hfolder
  rcases List.mem_append.1 hc with hc | hc
  · exact isSlash_of_mem_blendName hv hstem c hc
  · exact hext c hc

/-- **Two generated buffer files** are the same exactly if the paths they are made from clash. -/
theorem bufferFile_eq_bufferFile_iff {p q : Text} :
    bufferFile p v = bufferFile q v ↔ Clash p q := by
  constructor
  · intro h
    have hsplit := congrArg splitFolder h
    rw [splitFolder_bufferFile hv, splitFolder_bufferFile hv, Prod.mk.injEq] at hsplit
    exact ⟨hsplit.1, blendName_eq_blendName_iff.1 (List.append_cancel_right hsplit.2)⟩
  · rintro ⟨hfolder, hstem⟩
    show (splitFolder (Text.trim p)).1 ++ blendName (stem (splitFolder (Text.trim p)).2) v ++ _ =
      (splitFolder (Text.trim q)).1 ++ blendName (stem (splitFolder (Text.trim q)).2) v ++ _
    rw [hfolder, hstem.blendName_eq v]

end Variant

end Reskin.Naming
