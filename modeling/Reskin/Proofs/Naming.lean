import Reskin.Proofs.Remap.Quiet

/-!
# When generated names are the same

A generated name is a mark of generated names with something before and behind it. In the blend
style that is what stands before and behind the last `Blend` of the old name, the variant between
the first part and the mark; so two old names, or one old name in two styles, may have the same
generated name. They have it exactly if the three pieces are the same.

## Main definitions

* `Mould`, `NameStyle.mould`: the pieces of a generated name

## Main results

* `NameStyle.name_mould`: a generated name is put together from its pieces
* `NameStyle.rename_eq_rename_iff`: two generated names are the same exactly if their pieces are
* `NameStyle.newline_not_mem_rename`, `NameStyle.trim_rename`: generated names fit into a header
-/

namespace Reskin

namespace Text

/-! ## The last place of a mark -/

theorem splitLast_eq_none_iff {mark t : Text} (hm : mark ≠ []) :
    splitLast mark t = none ↔ ¬ mark <:+: t := by
  induction t with
  | nil => simp [splitLast, hm]
  | cons c t ih =>
    rw [splitLast, List.infix_cons_iff, not_or]
    have hstart : dropStart? mark (c :: t) = none ↔ ¬ mark <+: c :: t := by
      rw [Option.eq_none_iff_forall_ne_some, ← not_exists_not]
      simp only [not_not, dropStart?_eq_some, ne_eq]
      exact not_congr (exists_congr fun r => eq_comm)
    cases hs : splitLast mark t with
    | some sides =>
      have : mark <:+: t := by
        by_contra hn
        simp [ih.2 hn] at hs
      simp [this]
    | none => simp [hstart, ih.1 hs]

section Mark

variable {c : Char} {m : Text} (hc : c ∉ m)

include hc

/-- A mark that begins with a character of its own does not begin within itself. -/
theorem infix_tail_append_iff (r : Text) : c :: m <:+: m ++ r ↔ c :: m <:+: r :=
  infix_append_right_iff fun d hd => by
    obtain rfl : c = d := by simpa using hd
    exact hc

theorem not_infix_of_splitLast {t left right : Text}
    (h : splitLast (c :: m) t = some (left, right)) : ¬ c :: m <:+: right := by
  induction t generalizing left with
  | nil => simp [splitLast] at h
  | cons d t ih =>
    rw [splitLast] at h
    split at h
    · next l r hs =>
      obtain ⟨-, rfl⟩ : d :: l = left ∧ r = right := by simpa using h
      exact ih hs
    · next hs =>
      obtain ⟨r, hr, he⟩ := Option.map_eq_some_iff.1 h
      obtain ⟨-, rfl⟩ : [] = left ∧ r = right := by simpa using he
      obtain ⟨-, rfl⟩ := List.cons.inj (show d :: t = c :: (m ++ r) from dropStart?_eq_some.1 hr)
      rwa [splitLast_eq_none_iff (by simp), infix_tail_append_iff hc] at hs

theorem splitLast_of_absent (left : Text) {right : Text} (h : ¬ c :: m <:+: right) :
    splitLast (c :: m) (left ++ (c :: m) ++ right) = some (left, right) := by
  induction left with
  | nil =>
    have hs : splitLast (c :: m) (m ++ right) = none := by
      rwa [splitLast_eq_none_iff (by simp), infix_tail_append_iff hc]
    have hd : dropStart? (c :: m) (c :: (m ++ right)) = some right :=
      dropStart?_append (c :: m) right
    rw [List.nil_append, List.cons_append, splitLast, hs]
    simp [hd]
  | cons d left ih =>
    rw [List.append_assoc, List.cons_append, ← List.append_assoc, splitLast, ih]

/-- The last place of a mark is the only one with none after it. -/
theorem last_mark_unique {left right left' right' : Text}
    (h : left ++ (c :: m) ++ right = left' ++ (c :: m) ++ right') (hr : ¬ c :: m <:+: right)
    (hr' : ¬ c :: m <:+: right') : left = left' ∧ right = right' := by
  have := (splitLast_of_absent hc left hr).symm.trans (h ▸ splitLast_of_absent hc left' hr')
  simpa using this

end Mark

/-- No blank is a letter or a digit. -/
theorem isBlank_of_isAlphanum {c : Char} (h : c.isAlphanum = true) : isBlank c = false := by
  have key : ∀ n ∈ blankPoints, (Char.ofNat n).isAlphanum = false := by decide
  by_contra hb
  have := key c.toNat (mem_blankPoints (by simpa using hb))
  rw [Char.ofNat_toNat, h] at this
  simp at this

theorem trim_eq_self {t : Text} (hh : ∀ c ∈ t.head?, isBlank c = false)
    (hl : ∀ c ∈ t.getLast?, isBlank c = false) : trim t = t := by
  rw [trim, trimStart_eq_self hh, trimEnd_eq_self hl]

theorem Alphanumeric.trim_eq {t : Text} (h : t.Alphanumeric) : trim t = t :=
  trim_eq_self (fun c hc => isBlank_of_isAlphanum (h.2 c (List.mem_of_mem_head? hc)))
    fun c hc => isBlank_of_isAlphanum (h.2 c (List.mem_of_mem_getLast? hc))

theorem Alphanumeric.newline_not_mem {t : Text} (h : t.Alphanumeric) : '\n' ∉ t := by
  intro hn
  have := h.2 _ hn
  revert this
  decide

/-- A trimmed text does not end in a blank. -/
theorem isBlank_of_getLast?_trim {t : Text} (ht : trim t = t) :
    ∀ c ∈ t.getLast?, isBlank c = false :=
  fun _ hc => getLast?_trimEnd (t := trimStart t) (by rw [← trim, ht]; exact hc)

end Text

open Naming

/-! ## Names on one line -/

section Newline

variable {n v : Text} (hn : '\n' ∉ n) (hv : '\n' ∉ v)

include hn hv

theorem Naming.newline_not_mem_blendName : '\n' ∉ blendName n v := by
  unfold blendName
  split
  · next left right h =>
    rw [Text.splitLast_eq_some h] at hn
    simp only [List.mem_append, not_or] at hn ⊢
    exact ⟨⟨⟨hn.1.1, hv⟩, by decide⟩, hn.2⟩
  · simp [hn, hv, remapBlendMark, blendMark]

theorem Naming.newline_not_mem_fixName : '\n' ∉ fixName n v := by
  unfold fixName
  dsimp only
  split
  · exact hn
  · split
    · next stem h =>
      rw [Text.dropEnd?_eq_some.1 h, List.mem_append, not_or] at hn
      simp [hn.1, hv, remapFixMark]
    · simp [hn, hv, remapFixMark]

/-- **A generated name** stands on one line if the old name and the variant do. -/
theorem NameStyle.newline_not_mem_rename (s : NameStyle) : '\n' ∉ s.rename n v := by
  cases s with
  | blend => exact newline_not_mem_blendName hn hv
  | fix => exact newline_not_mem_fixName hn hv
  | resource =>
    have hb := newline_not_mem_blendName hn hv
    simp only [rename, resourceName, resourceNamed]
    split
    · exact hb
    · simp [resourceMark, hb]

/-- So does the path of a generated buffer file. -/
theorem Naming.newline_not_mem_bufferFile : '\n' ∉ bufferFile n v := by
  have hpath := splitFolder_append (Text.trim n)
  have htrim : '\n' ∉ Text.trim n := fun h => hn ((Text.trim_infix_self n).subset h)
  rw [← hpath, List.mem_append, not_or] at htrim
  have hstem : '\n' ∉ stem (splitFolder (Text.trim n)).2 := fun h =>
    htrim.2 ((stem_prefix_self _).subset h)
  unfold bufferFile
  simp [htrim.1, newline_not_mem_blendName hstem hv, bufferExtension]

end Newline

/-! ## Moulds -/

/-- **The pieces of a generated name.** -/
structure Mould where
  before : Text
  mark : Text
  behind : Text
  deriving DecidableEq, Repr

/-- The name that pieces make up. -/
def Mould.name (m : Mould) : Text := m.before ++ m.mark ++ m.behind

namespace NameStyle

/-- The pieces of a name in the blend style: the last `Blend` gives way to the mark. -/
def blendMould (name variant : Text) : Mould :=
  match Text.splitLast blendMark name with
  | some (left, right) => ⟨left ++ variant, remapBlendMark, right⟩
  | none => ⟨name ++ variant, remapBlendMark, []⟩

/-- The pieces of the generated name of a section whose own name is not a generated one. -/
def mould : NameStyle → (name variant : Text) → Mould
  | .blend, name, variant => blendMould name variant
  | .fix, name, variant => ⟨name ++ variant, remapFixMark, []⟩
  | .resource, name, variant =>
    { blendMould name variant with before := resourceNamed (blendMould name variant).before }

theorem name_blendMould (n v : Text) : (blendMould n v).name = blendName n v := by
  unfold blendMould blendName
  cases Text.splitLast blendMark n <;> simp [Mould.name]

theorem mark_blendMould (n v : Text) : (blendMould n v).mark = remapBlendMark := by
  unfold blendMould
  split <;> rfl

theorem not_blendMark_infix_behind (n v : Text) : ¬ blendMark <:+: (blendMould n v).behind := by
  unfold blendMould
  split
  · next h => exact Text.not_infix_of_splitLast (by decide) h
  · simp [blendMark]

theorem behind_blendMould (n v : Text) :
    (blendMould n v).behind = [] ∨ (blendMould n v).behind <:+ n := by
  unfold blendMould
  split
  · next left right h =>
    exact .inr ⟨left ++ blendMark, by rw [← Text.splitLast_eq_some h]⟩
  · exact .inl rfl

theorem before_blendMould (n v : Text) : ∃ p, p <+: n ∧ (blendMould n v).before = p ++ v := by
  unfold blendMould
  split
  · next left right h =>
    exact ⟨left, ⟨blendMark ++ right, by rw [Text.splitLast_eq_some h]; simp⟩, rfl⟩
  · exact ⟨n, List.prefix_rfl, rfl⟩

/-- `Resource` is put in front of the first piece already, for the mark does not go on with it. -/
theorem resourceNamed_append {before : Text} (h : before ≠ []) (behind : Text) :
    resourceNamed (before ++ remapBlendMark ++ behind) =
      resourceNamed before ++ remapBlendMark ++ behind := by
  have hstart (t : Text) : Text.startsWith resourceMark t = true ↔ resourceMark <+: t := by
    rw [Text.startsWith, Option.isSome_iff_exists]
    simp only [Text.dropStart?_eq_some]
    exact ⟨fun ⟨r, hr⟩ => ⟨r, hr.symm⟩, fun ⟨r, hr⟩ => ⟨r, hr.symm⟩⟩
  have hsame : resourceMark <+: before ++ remapBlendMark ++ behind ↔ resourceMark <+: before := by
    refine ⟨fun hp => ?_, fun hp => hp.trans (by simp [List.append_assoc])⟩
    obtain ⟨c, before, rfl⟩ := List.exists_cons_of_ne_nil h
    have hp : 'R' :: ['e', 's', 'o', 'u', 'r', 'c', 'e'] <+:
        c :: (before ++ 'R' :: (['e', 'm', 'a', 'p'] ++ blendMark ++ behind)) := by
      simpa only [remapBlendMark, resourceMark, List.append_assoc, List.cons_append] using hp
    obtain ⟨rfl, htail⟩ := List.cons_prefix_cons.1 hp
    exact List.cons_prefix_cons.2 ⟨rfl, Text.prefix_of_prefix_append_cons (by decide) htail⟩
  unfold resourceNamed
  by_cases hb : resourceMark <+: before
  · rw [if_pos ((hstart _).2 (hsame.2 hb)), if_pos ((hstart _).2 hb)]
  · rw [if_neg fun hs => hb (hsame.1 ((hstart _).1 hs)), if_neg fun hs => hb ((hstart _).1 hs)]
    simp

/-- A name that is not a generated one holds neither mark. -/
theorem not_infix_of_plain {n : Text} (h : isGenerated n = false) :
    ¬ remapBlendMark <:+: n ∧ ¬ remapFixMark <:+: n := by
  rw [isGenerated, Bool.or_eq_false_iff, ← Bool.not_eq_true, ← Bool.not_eq_true,
    Text.holds_iff_infix, Text.holds_iff_infix] at h
  exact h

section Fresh

variable {n m v w : Text} (hn : isGenerated n = false)

include hn

theorem fixName_eq (v : Text) : fixName n v = n ++ v ++ remapFixMark := by
  obtain ⟨-, hfix⟩ := not_infix_of_plain hn
  have hends {ending stem : Text} (h : Text.dropEnd? ending n = some stem)
      (hs : remapFixMark <:+ ending) : False := by
    rw [Text.dropEnd?_eq_some] at h
    exact hfix (hs.isInfix.trans ⟨stem, [], by simp [h]⟩)
  unfold fixName
  dsimp only
  split
  · next h =>
    obtain ⟨stem, hstem⟩ := Option.isSome_iff_exists.1 h
    exact (hends hstem ⟨v, rfl⟩).elim
  · split
    · next hstem => exact (hends hstem List.suffix_rfl).elim
    · simp

/-- **A generated name** is put together from its pieces. -/
theorem name_mould (hv : v ≠ []) (s : NameStyle) : (s.mould n v).name = s.rename n v := by
  cases s with
  | blend => exact name_blendMould n v
  | fix => simp [mould, Mould.name, rename, fixName_eq hn]
  | resource =>
    have hbefore : (blendMould n v).before ≠ [] := by
      obtain ⟨p, -, he⟩ := before_blendMould n v
      simp [he, hv]
    rw [rename, resourceName, ← name_blendMould, mould, Mould.name, Mould.name, mark_blendMould,
      resourceNamed_append hbefore]

theorem mark_mould (v : Text) (s : NameStyle) :
    (s.mould n v).mark = remapBlendMark ∧ ¬ blendMark <:+: (s.mould n v).behind ∧
        ¬ remapFixMark <:+: (s.mould n v).behind ∨
      (s.mould n v).mark = remapFixMark ∧ (s.mould n v).behind = [] := by
  have hblend : (blendMould n v).mark = remapBlendMark ∧
      ¬ blendMark <:+: (blendMould n v).behind ∧ ¬ remapFixMark <:+: (blendMould n v).behind := by
    refine ⟨mark_blendMould n v, not_blendMark_infix_behind n v, fun hi => ?_⟩
    rcases behind_blendMould n v with he | hs
    · simp [he, remapFixMark] at hi
    · exact (not_infix_of_plain hn).2 (hi.trans hs.isInfix)
  cases s with
  | blend => exact .inl hblend
  | fix => exact .inr ⟨rfl, rfl⟩
  | resource => exact .inl hblend

end Fresh

/-- A name of the one kind is none of the other: its last mark is within what stands behind. -/
theorem fix_ne_blend {before before' behind' : Text} (h : ¬ remapFixMark <:+: behind') :
    before ++ remapFixMark ≠ before' ++ remapBlendMark ++ behind' := by
  intro he
  rcases List.append_eq_append_iff.1 he with ⟨as, hb, hm⟩ | ⟨bs, rfl, hm⟩
  · rcases List.eq_nil_or_concat as with rfl | ⟨as, c, rfl⟩
    · exact h (by simp [hm])
    · have hlast : (before' ++ remapBlendMark).getLast? = some 'd' := by simp [remapBlendMark, blendMark]
      rw [hb, List.concat_eq_append, ← List.append_assoc, List.getLast?_concat] at hlast
      obtain rfl : c = 'd' := by simpa using hlast
      have : 'd' ∈ remapFixMark := by simp [hm]
      exact absurd this (by decide)
  · exact h ⟨bs, [], by simp [hm]⟩

section Same

variable {n m v w : Text} (hn : isGenerated n = false) (hm : isGenerated m = false)

include hn hm

theorem mould_eq_of_name_eq {s s' : NameStyle}
    (h : (s.mould n v).name = (s'.mould m w).name) : s.mould n v = s'.mould m w := by
  generalize hx : s.mould n v = x at h
  generalize hy : s'.mould m w = y at h
  have hmx := mark_mould hn v s
  have hmy := mark_mould hm w s'
  rw [hx] at hmx
  rw [hy] at hmy
  obtain ⟨before, mark, behind⟩ := x
  obtain ⟨before', mark', behind'⟩ := y
  simp only [Mould.name] at h hmx hmy
  rcases hmx with ⟨rfl, hb, hf⟩ | ⟨rfl, rfl⟩ <;> rcases hmy with ⟨rfl, hb', hf'⟩ | ⟨rfl, rfl⟩
  · have hmark : remapBlendMark = ['R', 'e', 'm', 'a', 'p'] ++ blendMark := rfl
    rw [hmark, ← List.append_assoc, ← List.append_assoc] at h
    obtain ⟨hbefore, rfl⟩ := Text.last_mark_unique (by decide) h hb hb'
    obtain rfl := List.append_cancel_right hbefore
    rfl
  · exact absurd (by simpa using h.symm) (fix_ne_blend hf)
  · exact absurd (by simpa using h) (fix_ne_blend hf')
  · obtain rfl : before = before' := by simpa using h
    rfl

/-- **Two generated names** of sections whose own names are not generated ones are the same exactly
if their pieces are. -/
theorem rename_eq_rename_iff (hv : v ≠ []) (hw : w ≠ []) {s s' : NameStyle} :
    s.rename n v = s'.rename m w ↔ s.mould n v = s'.mould m w := by
  rw [← name_mould hn hv, ← name_mould hm hw]
  exact ⟨mould_eq_of_name_eq hn hm, congrArg Mould.name⟩

end Same

/-! ## Names in headers -/

section Header

variable {n v : Text} (hv : v.Alphanumeric) (ht : Text.trim n = n)

include hv ht

/-- A name that begins as one without blanks around it, goes on with a variant and does not end in a
blank has no blanks around it either. -/
theorem trim_prefix_append {p rest : Text} (hp : p <+: n)
    (hrest : ∀ c ∈ (v ++ rest).getLast?, isBlank c = false) :
    Text.trim (p ++ (v ++ rest)) = p ++ (v ++ rest) := by
  have hvb : ∀ c ∈ v, isBlank c = false := fun c hc => Text.isBlank_of_isAlphanum (hv.2 c hc)
  have hne : v ++ rest ≠ [] := by simp [hv.1]
  refine Text.trim_eq_self (fun c hc => ?_) fun c hc => ?_
  · cases p with
    | nil =>
      rw [List.nil_append, List.head?_append_of_ne_nil _ hv.1] at hc
      exact hvb c (List.mem_of_mem_head? hc)
    | cons d p =>
      obtain rfl : d = c := by simpa using hc
      obtain ⟨r, hr⟩ := hp
      exact Text.isBlank_of_head?_trim (t := n) (by rw [ht, ← hr]; rfl)
  · rw [List.getLast?_append_of_ne_nil _ hne] at hc
    exact hrest c hc

theorem trim_blendName : Text.trim (blendName n v) = blendName n v := by
  obtain ⟨p, hp, hbefore⟩ := before_blendMould n v
  have hname : blendName n v = p ++ (v ++ (remapBlendMark ++ (blendMould n v).behind)) := by
    rw [← name_blendMould, Mould.name, mark_blendMould, hbefore]
    simp
  rw [hname]
  refine trim_prefix_append hv ht hp fun c hc => ?_
  rw [List.getLast?_append_of_ne_nil _ (by simp [remapBlendMark])] at hc
  have hb : (blendMould n v).behind <:+ n := by
    rcases behind_blendMould n v with hb | hb
    · rw [hb]
      exact List.nil_suffix
    · exact hb
  by_cases hnil : (blendMould n v).behind = []
  · rw [hnil] at hc
    obtain rfl : 'd' = c := by simpa [remapBlendMark, blendMark] using hc
    decide
  · rw [List.getLast?_append_of_ne_nil _ hnil] at hc
    obtain ⟨r, hr⟩ := hb
    refine Text.isBlank_of_getLast?_trim ht c ?_
    rw [← hr, List.getLast?_append_of_ne_nil _ hnil]
    exact hc

theorem trim_fixName : Text.trim (fixName n v) = fixName n v := by
  have hlast : ∀ c ∈ (v ++ remapFixMark).getLast?, isBlank c = false := by
    intro c hc
    obtain rfl : 'x' = c := by simpa [remapFixMark] using hc
    decide
  unfold fixName
  dsimp only
  split
  · exact ht
  · split
    · next stem hstem =>
      exact trim_prefix_append hv ht ⟨remapFixMark, (Text.dropEnd?_eq_some.1 hstem).symm⟩ hlast
    · exact trim_prefix_append hv ht List.prefix_rfl hlast

/-- **A generated name** has no blanks around it. -/
theorem trim_rename (s : NameStyle) : Text.trim (s.rename n v) = s.rename n v := by
  cases s with
  | blend => exact trim_blendName hv ht
  | fix => exact trim_fixName hv ht
  | resource =>
    have hblend := trim_blendName hv ht
    have hne : blendName n v ≠ [] := by
      rw [← name_blendMould, Mould.name, mark_blendMould]
      simp [remapBlendMark]
    simp only [rename, resourceName, resourceNamed]
    split
    · exact hblend
    · refine Text.trim_eq_self (fun c hc => ?_) fun c hc => ?_
      · obtain rfl : 'R' = c := by simpa [resourceMark] using hc
        decide
      · rw [List.getLast?_append_of_ne_nil _ hne] at hc
        exact Text.isBlank_of_getLast?_trim hblend c hc

end Header

end NameStyle

/-- Neither has the path of a generated buffer file. -/
theorem Naming.trim_bufferFile {v : Text} (hv : v.Alphanumeric) (path : Text) :
    Text.trim (bufferFile path v) = bufferFile path v := by
  obtain ⟨p, hp, hbefore⟩ := NameStyle.before_blendMould (stem (splitFolder (Text.trim path)).2) v
  have hpath := splitFolder_append (Text.trim path)
  have hfile : bufferFile path v = ((splitFolder (Text.trim path)).1 ++ p) ++ (v ++ (remapBlendMark ++
      (NameStyle.blendMould (stem (splitFolder (Text.trim path)).2) v).behind ++ bufferExtension)) := by
    show (splitFolder (Text.trim path)).1 ++ blendName (stem (splitFolder (Text.trim path)).2) v ++
      bufferExtension = _
    rw [← NameStyle.name_blendMould, Mould.name, NameStyle.mark_blendMould, hbefore]
    simp
  rw [hfile]
  refine NameStyle.trim_prefix_append hv (Text.trim_trim path) ?_ fun c hc => ?_
  · conv => rhs; rw [← hpath]
    exact (List.prefix_append_right_inj _).2 (hp.trans (stem_prefix_self _))
  · obtain rfl : 'f' = c := by simpa [bufferExtension] using hc
    decide

end Reskin
