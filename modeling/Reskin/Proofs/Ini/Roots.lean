import Reskin.Proofs.Ini.Document

/-!
# Roots

Which header the root of a document stands in. The rule is stated for kinds that know their headers
by any test at all: characters with their patterns are one case of it. A document finds its root
by looking through all headers for each of two reasons. The same is found in one pass that keeps
two candidates, a header that some kind fits and the first blend override, and settles at the end
of the text which of the two counts.

## Main definitions

* `Ini.IsFirst`: the first member of a list with a property
* `Ini.Picks`: the rule by which headers determine a root and its kind
* `Ini.RootScan`: a pass through the headers, with what it has found so far

## Main results

* `Ini.Picks.unique`: the rule leaves no choice
* `Ini.RootScan.Tracks.see`, `Ini.RootScan.Tracks.foldl`: what one header and what a run keeps
* `Ini.RootScan.picks_ofHeaders`: a pass picks by the rule
* `Ini.Document.picks_ofText`: the root of a document is picked by the rule, and the document has it
-/

namespace Reskin.Ini

/-! ## The first with a property -/

/-- A member with a property, ahead of which no member has it. -/
def IsFirst {α : Type} (p : α → Bool) (l : List α) (a : α) : Prop :=
  ∃ before after, l = before ++ a :: after ∧ p a = true ∧ ∀ b ∈ before, p b = false

section IsFirst

variable {α : Type} {p : α → Bool} {l : List α} {a b : α}

theorem isFirst_iff : IsFirst p l a ↔ l.find? p = some a := by
  rw [List.find?_eq_some_iff_append]
  constructor
  · rintro ⟨before, after, rfl, ha, hb⟩
    exact ⟨ha, before, after, rfl, fun b hm => by simp [hb b hm]⟩
  · rintro ⟨ha, before, after, rfl, hb⟩
    exact ⟨before, after, rfl, ha, fun b hm => by simpa using hb b hm⟩

theorem IsFirst.unique (ha : IsFirst p l a) (hb : IsFirst p l b) : a = b :=
  Option.some.inj ((isFirst_iff.1 ha).symm.trans (isFirst_iff.1 hb))

theorem IsFirst.holds (h : IsFirst p l a) : p a = true := List.find?_some (isFirst_iff.1 h)

theorem IsFirst.mem (h : IsFirst p l a) : a ∈ l := List.mem_of_find?_eq_some (isFirst_iff.1 h)

theorem IsFirst.append (h : IsFirst p l a) (m : List α) : IsFirst p (l ++ m) a := by
  obtain ⟨before, after, rfl, ha, hb⟩ := h
  exact ⟨before, after ++ m, by simp, ha, hb⟩

theorem isFirst_concat (hl : ∀ b ∈ l, p b = false) (ha : p a = true) : IsFirst p (l ++ [a]) a :=
  ⟨l, [], rfl, ha, hl⟩

theorem not_isFirst (hl : ∀ b ∈ l, p b = false) : ¬ IsFirst p l a := by
  intro h
  have ha := hl a h.mem
  rw [h.holds] at ha
  cases ha

end IsFirst

/-! ## The rule -/

/-- The name of the first blend override. -/
def firstBlend (headers : List Text) : Option Text :=
  (headers.find? Line.isBlendHeader).map Line.sectionName

section Picks

variable {κ : Type} (fits : κ → Text → Bool) (kinds : List κ) (assumes : Bool)

/-- **The rule** by which headers determine a root and its kind. A header that some kind fits goes
ahead of every other one. Blend overrides count where there is no kind to ask, or where a kind is
assumed for files of none. -/
inductive Picks (headers : List Text) : Option Text → Option κ → Prop
  | kind {h : Text} {k : κ} (first : IsFirst (fun h => kinds.any (fits · h)) headers h)
      (chosen : IsFirst (fits · h) kinds k) : Picks headers (some (Line.sectionName h)) (some k)
  | blend {h : Text} (none_fits : ∀ h ∈ headers, ∀ k ∈ kinds, fits k h = false)
      (counts : kinds = [] ∨ assumes = true) (first : IsFirst Line.isBlendHeader headers h) :
      Picks headers (some (Line.sectionName h)) none
  | nothing (none_fits : ∀ h ∈ headers, ∀ k ∈ kinds, fits k h = false)
      (no_blend : kinds = [] ∨ assumes = true → ∀ h ∈ headers, Line.isBlendHeader h = false) :
      Picks headers none none

variable {fits kinds assumes} {headers : List Text} {root root' : Option Text}
  {kind kind' : Option κ}

/-- Where no kind fits a header, no header is the first that one fits. -/
theorem not_isFirst_of_none_fits {h : Text}
    (none_fits : ∀ h ∈ headers, ∀ k ∈ kinds, fits k h = false) :
    ¬ IsFirst (fun h => kinds.any (fits · h)) headers h :=
  not_isFirst fun h hm => by simpa using none_fits h hm

/-- **The rule leaves no choice.** -/
theorem Picks.unique (h : Picks fits kinds assumes headers root kind)
    (h' : Picks fits kinds assumes headers root' kind') : root = root' ∧ kind = kind' := by
  cases h with
  | kind first chosen =>
    cases h' with
    | kind first' chosen' =>
      obtain rfl := first.unique first'
      obtain rfl := chosen.unique chosen'
      exact ⟨rfl, rfl⟩
    | blend none_fits => exact absurd first (not_isFirst_of_none_fits none_fits)
    | nothing none_fits => exact absurd first (not_isFirst_of_none_fits none_fits)
  | blend none_fits counts first =>
    cases h' with
    | kind first' => exact absurd first' (not_isFirst_of_none_fits none_fits)
    | blend _ _ first' =>
      obtain rfl := first.unique first'
      exact ⟨rfl, rfl⟩
    | nothing _ no_blend => exact absurd first (not_isFirst (no_blend counts))
  | nothing none_fits no_blend =>
    cases h' with
    | kind first' => exact absurd first' (not_isFirst_of_none_fits none_fits)
    | blend _ counts first' => exact absurd first' (not_isFirst (no_blend counts))
    | nothing => exact ⟨rfl, rfl⟩

/-- What the rule picks is the name of a header. -/
theorem Picks.exists_header {name : Text} (h : Picks fits kinds assumes headers (some name) kind) :
    ∃ h ∈ headers, Line.sectionName h = name := by
  cases h with
  | kind first => exact ⟨_, first.mem, rfl⟩
  | blend _ _ first => exact ⟨_, first.mem, rfl⟩

/-- Where blend overrides count and no kind fits a header, the first blend override is picked. -/
theorem picks_firstBlend (none_fits : ∀ h ∈ headers, ∀ k ∈ kinds, fits k h = false)
    (counts : kinds = [] ∨ assumes = true) :
    Picks fits kinds assumes headers (firstBlend headers) none := by
  unfold firstBlend
  cases hf : headers.find? Line.isBlendHeader with
  | some h => exact .blend none_fits counts (isFirst_iff.2 hf)
  | none => exact .nothing none_fits fun _ h hm => by simpa using List.find?_eq_none.1 hf h hm

/-- A root that is picked where no kind is assumed is picked as well where one is. -/
theorem Picks.of_some {name : Text} (h : Picks fits kinds false headers (some name) kind)
    (assumes : Bool) : Picks fits kinds assumes headers (some name) kind := by
  cases h with
  | kind first chosen => exact .kind first chosen
  | blend none_fits counts first => exact .blend none_fits (.inl (by simpa using counts)) first

/-- What it means that the rule picks no root. -/
theorem Picks.of_none (h : Picks fits kinds assumes headers none kind) :
    kind = none ∧ (∀ h ∈ headers, ∀ k ∈ kinds, fits k h = false) ∧
      (kinds = [] ∨ assumes = true → ∀ h ∈ headers, Line.isBlendHeader h = false) := by
  cases h with
  | nothing none_fits no_blend => exact ⟨rfl, none_fits, no_blend⟩

end Picks

/-! ## One pass -/

/-- What a pass through the headers has found so far. -/
structure RootScan (κ : Type) where
  root : Option Text
  kind : Option κ
  /-- The first blend override, for the case that nothing else turns up. -/
  spare : Option Text
  isMod : Bool
  deriving DecidableEq, Repr

namespace RootScan

section Pass

variable {κ : Type} (fits : κ → Text → Bool) (kinds : List κ) (assumes : Bool)

/-- The scan ahead of the first header. -/
def start : RootScan κ := ⟨none, none, none, false⟩

/-- The scan with a blend override kept as a spare root, if one is asked for and missing. -/
def keepSpare (s : RootScan κ) (header : Text) : RootScan κ :=
  if assumes ∧ s.spare = none ∧ Line.isBlendHeader header then
    { s with spare := some (Line.sectionName header), isMod := true }
  else s

/-- The scan with the root that a header opens, if it opens one. -/
def settle (s : RootScan κ) (header : Text) : RootScan κ :=
  if kinds = [] then
    if Line.isBlendHeader header then
      { s with root := some (Line.sectionName header), isMod := true }
    else s
  else
    match kinds.find? (fits · header) with
    | some k => { s with root := some (Line.sectionName header), kind := some k, isMod := true }
    | none => s

/-- The scan after one more header: the first root stays. -/
def see (s : RootScan κ) (header : Text) : RootScan κ :=
  let s := s.keepSpare assumes header
  if s.root.isSome then s else s.settle fits kinds header

/-- The scan at the end of the text, where the spare root steps in. -/
def close (s : RootScan κ) : RootScan κ :=
  if s.root = none ∧ assumes then { s with root := s.spare } else s

/-- What a pass through all headers finds. -/
def ofHeaders (headers : List Text) : RootScan κ :=
  (headers.foldl (see fits kinds assumes) start).close assumes

/-- **What a pass keeps**: the root so far is picked as if no kind were assumed, the spare root is
the first blend override, and the file passes for a mod if there is either. -/
structure Tracks (headers : List Text) (s : RootScan κ) : Prop where
  picks : Picks fits kinds false headers s.root s.kind
  spare : s.spare = if assumes then firstBlend headers else none
  isMod : s.isMod = (s.root.isSome || s.spare.isSome)

end Pass

variable {κ : Type} {fits : κ → Text → Bool} {kinds : List κ} {assumes : Bool}
  {headers : List Text} {s : RootScan κ} {header : Text}

theorem tracks_start : Tracks fits kinds assumes [] start where
  picks := .nothing (by simp) (by simp)
  spare := by simp [start, firstBlend]
  isMod := rfl

@[simp] theorem keepSpare_root : (s.keepSpare assumes header).root = s.root := by
  unfold keepSpare
  split <;> rfl

@[simp] theorem keepSpare_kind : (s.keepSpare assumes header).kind = s.kind := by
  unfold keepSpare
  split <;> rfl

@[simp] theorem settle_spare : (s.settle fits kinds header).spare = s.spare := by
  unfold settle
  split
  · split <;> rfl
  · split <;> rfl

/-- The spare root after one more header is the first blend override up to there. -/
theorem keepSpare_spare (header : Text)
    (h : s.spare = if assumes then firstBlend headers else none) :
    (s.keepSpare assumes header).spare =
      if assumes then firstBlend (headers ++ [header]) else none := by
  rw [firstBlend] at h
  rw [firstBlend, List.find?_append]
  cases assumes with
  | false => simpa [keepSpare] using h
  | true =>
    cases hf : headers.find? Line.isBlendHeader with
    | some first => simp [keepSpare, h, hf]
    | none =>
      cases hb : Line.isBlendHeader header with
      | true => simp [keepSpare, h, hf, hb]
      | false => simp [keepSpare, h, hf, hb]

theorem keepSpare_isMod (assumes : Bool) (header : Text)
    (h : s.isMod = (s.root.isSome || s.spare.isSome)) :
    (s.keepSpare assumes header).isMod =
      (s.root.isSome || (s.keepSpare assumes header).spare.isSome) := by
  unfold keepSpare
  split
  · simp
  · exact h

theorem settle_isMod (h : s.isMod = (s.root.isSome || s.spare.isSome)) :
    (s.settle fits kinds header).isMod =
      ((s.settle fits kinds header).root.isSome || s.spare.isSome) := by
  unfold settle
  split
  · split
    · simp
    · exact h
  · split
    · simp
    · exact h

/-- A root that is picked stays picked, whatever follows. -/
theorem picks_append_of_isSome {root : Option Text} {kind : Option κ}
    (h : Picks fits kinds false headers root kind) (hroot : root.isSome = true) :
    Picks fits kinds false (headers ++ [header]) root kind := by
  cases h with
  | kind first chosen => exact .kind (first.append _) chosen
  | blend _ counts first =>
    obtain rfl : kinds = [] := by simpa using counts
    exact .blend (by simp) (.inl rfl) (first.append _)
  | nothing => cases hroot

/-- Where nothing is picked so far, the next header settles the root by itself. -/
theorem picks_settle (h : Picks fits kinds false headers none s.kind) (hroot : s.root = none) :
    Picks fits kinds false (headers ++ [header]) (s.settle fits kinds header).root
      (s.settle fits kinds header).kind := by
  obtain ⟨hkind, none_fits, no_blend⟩ := h.of_none
  by_cases hk : kinds = []
  · cases hb : Line.isBlendHeader header with
    | true =>
      simpa [settle, hk, hb, hkind] using
        Picks.blend (by simp [hk]) (.inl hk) (isFirst_concat (no_blend (.inl hk)) hb)
    | false =>
      have hs : s.settle fits kinds header = s := by simp [settle, hk, hb]
      rw [hs, hkind, hroot]
      refine .nothing (by simp [hk]) fun _ h hm => ?_
      rcases List.mem_append.1 hm with hm | hm
      · exact no_blend (.inl hk) h hm
      · rwa [List.mem_singleton.1 hm]
  · cases hf : kinds.find? (fits · header) with
    | some k =>
      have chosen : IsFirst (fits · header) kinds k := isFirst_iff.2 hf
      have hany : kinds.any (fits · header) = true :=
        List.any_eq_true.2 ⟨k, chosen.mem, chosen.holds⟩
      simpa [settle, hk, hf] using Picks.kind
        (isFirst_concat (fun h hm => by simpa using none_fits h hm) hany) chosen
    | none =>
      have hs : s.settle fits kinds header = s := by simp [settle, hk, hf]
      rw [hs, hkind, hroot]
      refine .nothing (fun h hm k hkm => ?_) (by simp [hk])
      rcases List.mem_append.1 hm with hm | hm
      · exact none_fits h hm k hkm
      · rw [List.mem_singleton.1 hm]
        simpa using List.find?_eq_none.1 hf k hkm

/-- **One header** keeps what a pass keeps. -/
theorem Tracks.see (h : Tracks fits kinds assumes headers s) :
    Tracks fits kinds assumes (headers ++ [header]) (s.see fits kinds assumes header) := by
  have hspare := keepSpare_spare header h.spare
  have hmod := keepSpare_isMod assumes header h.isMod
  unfold RootScan.see
  dsimp only
  split
  · next hroot =>
    refine ⟨?_, hspare, by rw [hmod, keepSpare_root]⟩
    rw [keepSpare_root, keepSpare_kind]
    exact picks_append_of_isSome h.picks (by simpa using hroot)
  · next hroot =>
    have hroot : s.root = none := by simpa using hroot
    refine ⟨picks_settle ?_ (by simpa using hroot), ?_, ?_⟩
    · rw [keepSpare_kind, ← hroot]
      exact h.picks
    · rw [settle_spare, hspare]
    · rw [settle_isMod (by rw [hmod, keepSpare_root]), settle_spare]

/-- **A run through headers** keeps what every single one keeps. -/
theorem Tracks.foldl (h : Tracks fits kinds assumes headers s) (more : List Text) :
    Tracks fits kinds assumes (headers ++ more)
      (more.foldl (RootScan.see fits kinds assumes) s) := by
  induction more generalizing headers s with
  | nil => simpa using h
  | cons header more ih =>
    rw [List.foldl_cons, List.append_cons]
    exact ih h.see

/-- At the end the spare root turns what is picked without an assumed kind into what is picked
with it. -/
theorem Tracks.picks_close (h : Tracks fits kinds assumes headers s) :
    Picks fits kinds assumes headers (s.close assumes).root (s.close assumes).kind := by
  have hpicks := h.picks
  have hspare := h.spare
  cases hroot : s.root with
  | some name =>
    rw [hroot] at hpicks
    simpa [close, hroot] using hpicks.of_some assumes
  | none =>
    rw [hroot] at hpicks
    obtain ⟨hkind, none_fits, no_blend⟩ := hpicks.of_none
    cases assumes with
    | false => simpa [close, hroot] using hpicks
    | true =>
      simp only [close, hroot, hkind, if_true, and_self] at hspare ⊢
      rw [hspare]
      exact picks_firstBlend none_fits (.inr rfl)

theorem Tracks.isMod_close (h : Tracks fits kinds assumes headers s) :
    (s.close assumes).isMod = (s.close assumes).root.isSome := by
  have hmod := h.isMod
  unfold close
  split
  · next hc => simpa [hc.1] using hmod
  · next hc =>
    cases hroot : s.root with
    | some name => simpa [hroot] using hmod
    | none =>
      have hassumes : assumes = false := by simpa [hroot] using hc
      have hspare : s.spare = none := by simpa [hassumes] using h.spare
      simpa [hroot, hspare] using hmod

/-- **A pass picks by the rule**, and the file passes for a mod exactly if there is a root. -/
theorem picks_ofHeaders (fits : κ → Text → Bool) (kinds : List κ) (assumes : Bool)
    (headers : List Text) :
    Picks fits kinds assumes headers (ofHeaders fits kinds assumes headers).root
        (ofHeaders fits kinds assumes headers).kind ∧
      (ofHeaders fits kinds assumes headers).isMod =
        (ofHeaders fits kinds assumes headers).root.isSome := by
  have hstart : Tracks fits kinds assumes [] start := tracks_start
  have h := hstart.foldl headers
  exact ⟨h.picks_close, h.isMod_close⟩

end RootScan

/-! ## The root of a document -/

namespace Document

variable (characters : List Character) (assumed : Option Character)

theorem characterRoot?_eq_none {headers : List Text}
    (h : characterRoot? characters headers = none) :
    ∀ h ∈ headers, ∀ c ∈ characters, c.isRoot h = false := by
  intro header hm c hc
  have hfind := List.findSome?_eq_none_iff.1 h header hm
  rw [Option.map_eq_none_iff] at hfind
  simpa using List.find?_eq_none.1 hfind c hc

/-- The header and the character that a search for a root finds. -/
theorem characterRoot?_eq_some {headers : List Text} {header : Text} {c : Character}
    (h : characterRoot? characters headers = some (header, c)) :
    IsFirst (fun h => characters.any (·.isRoot h)) headers header ∧
      IsFirst (·.isRoot header) characters c := by
  obtain ⟨before, found, after, rfl, hfound, hbefore⟩ := List.findSome?_eq_some_iff.1 h
  obtain ⟨c', hc', he⟩ := Option.map_eq_some_iff.1 hfound
  obtain ⟨rfl, rfl⟩ := Prod.mk.inj he
  have chosen : IsFirst (·.isRoot found) characters c' := isFirst_iff.2 hc'
  refine ⟨⟨before, after, rfl, List.any_eq_true.2 ⟨c', chosen.mem, chosen.holds⟩, fun b hb => ?_⟩,
    chosen⟩
  have hnone := hbefore b hb
  rw [Option.map_eq_none_iff, List.find?_eq_none] at hnone
  simpa using hnone

theorem picks_rootOf (headers : List Text) :
    Picks Character.isRoot characters assumed.isSome headers
      (rootOf characters assumed headers).1 (rootOf characters assumed headers).2 := by
  unfold rootOf
  split
  · next h c hc =>
    obtain ⟨first, chosen⟩ := characterRoot?_eq_some characters hc
    exact .kind first chosen
  · next hnone =>
    have none_fits := characterRoot?_eq_none characters hnone
    split
    · next hasked => exact picks_firstBlend none_fits (by simpa using hasked)
    · next hasked => exact .nothing none_fits fun h => absurd (by simpa using h) hasked

/-- A file is one that can be remapped exactly if it has a root. -/
theorem isMod_eq_isSome_root (ls : List Text) :
    (ofLines characters assumed ls).isMod = (ofLines characters assumed ls).root.isSome := by
  have hpicks := picks_rootOf characters assumed (ls.filter Line.isHeader)
  cases hroot : (ofLines characters assumed ls).root with
  | some name => exact isMod_of_root (by rw [hroot]; rfl)
  | none =>
    rw [show (rootOf characters assumed (ls.filter Line.isHeader)).1 = none from hroot] at hpicks
    obtain ⟨-, none_fits, no_blend⟩ := hpicks.of_none
    refine List.any_eq_false.2 fun h hm => ?_
    have hany : characters.any (·.isRoot h) = false := by simpa using none_fits h hm
    cases hasked : characters.isEmpty || assumed.isSome with
    | false => simp [isTelling, hany, hasked]
    | true => simp [isTelling, hany, no_blend (by simpa using hasked) h hm]

/-- The name of every header is that of a section. -/
theorem map_name_find?_of_header {ls : List Text} {header : Text} (h : header ∈ ls)
    (hh : Line.isHeader header = true) :
    ((ofLines characters assumed ls).find? (Line.sectionName header)).map (·.name) =
      some (Line.sectionName header) := by
  obtain ⟨c, hc, rfl⟩ := exists_chunk 0 h hh
  have hs : (ofLines characters assumed ls).find? c.name =
      ((chunks 0 ls).map Chunk.toSection).find? (·.name == c.name) := find?_firstOfEachName _ _
  rw [show Line.sectionName c.header = c.name from rfl, hs]
  cases hf : ((chunks 0 ls).map Chunk.toSection).find? (·.name == c.name) with
  | some s => simpa using List.find?_some hf
  | none =>
    exact absurd (beq_self_eq_true c.name) (List.find?_eq_none.1 hf _ (List.mem_map_of_mem hc))

/-- A name that is picked from the headers of a document is that of a section. -/
theorem map_name_find?_of_picks {κ : Type} {fits : κ → Text → Bool} {kinds : List κ}
    {assumes : Bool} {ls : List Text} {name : Text} {kind : Option κ}
    (h : Picks fits kinds assumes (ls.filter Line.isHeader) (some name) kind) :
    ((ofLines characters assumed ls).find? name).map (·.name) = some name := by
  obtain ⟨header, hm, rfl⟩ := h.exists_header
  obtain ⟨hm, hh⟩ := List.mem_filter.1 hm
  exact map_name_find?_of_header characters assumed hm hh

/-- **The root of a document** is picked by the rule from the headers of the text, whatever the
patterns of the characters are; the document is that of a mod exactly if it has a root, and a root
is the name of a section. A single pass finds the same, and it picks by the rule with any test in
place of the patterns, again a name that the document has a section of. -/
theorem picks_ofText (t : Text) :
    let headers := (Text.lines t).filter Line.isHeader
    let d := ofText characters assumed t
    (Picks Character.isRoot characters assumed.isSome headers d.root d.character ∧
        d.isMod = d.root.isSome ∧ d.rootSection?.map (·.name) = d.root) ∧
      (∀ {κ : Type} (fits : κ → Text → Bool) (kinds : List κ) (assumes : Bool),
        let s := RootScan.ofHeaders fits kinds assumes headers
        Picks fits kinds assumes headers s.root s.kind ∧ s.isMod = s.root.isSome ∧
          (s.root.bind d.find?).map (·.name) = s.root) ∧
      let s := RootScan.ofHeaders Character.isRoot characters assumed.isSome headers
      (s.root, s.kind, s.isMod) = (d.root, d.character, d.isMod) := by
  intro headers d
  have hd : Picks Character.isRoot characters assumed.isSome headers d.root d.character :=
    picks_rootOf characters assumed headers
  have hmod : d.isMod = d.root.isSome := isMod_eq_isSome_root characters assumed (Text.lines t)
  have hnamed {κ : Type} {fits : κ → Text → Bool} {kinds : List κ} {assumes : Bool}
      {root : Option Text} {kind : Option κ} (h : Picks fits kinds assumes headers root kind) :
      (root.bind d.find?).map (·.name) = root := by
    cases root with
    | none => rfl
    | some name => exact map_name_find?_of_picks characters assumed h
  refine ⟨⟨hd, hmod, hnamed hd⟩, fun fits kinds assumes => ?_, ?_⟩
  · obtain ⟨hs, hsmod⟩ := RootScan.picks_ofHeaders fits kinds assumes headers
    exact ⟨hs, hsmod, hnamed hs⟩
  · obtain ⟨hs, hsmod⟩ :=
      RootScan.picks_ofHeaders Character.isRoot characters assumed.isSome headers
    obtain ⟨hroot, hkind⟩ := hs.unique hd
    simp only [hsmod, hmod, hroot, hkind]

end Document

end Reskin.Ini
