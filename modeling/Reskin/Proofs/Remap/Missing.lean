import Reskin.Proofs.Remap.Erasure

/-!
# When erasure fails

Erasure fails only for want of a section: some section that a pass removes leads, through calls, to
a name that the text of that pass does not declare. The passes read different texts. The first one
reads the text as it is; the second one reads what is left without the fences, where a section that
only a fence declares is missing.

## Main definitions

* `Remap.Misses`: what the calls of some sections lead to and a document does not declare
* `Remap.strayNames`: the generated sections outside of fences
* `Remap.Removed`: the sections of a text that erasure removes

## Main results

* `Remap.exists_erase_iff`: erasure succeeds exactly if neither pass misses a section
* `Remap.exists_misses_of_erase`: the fault names a section that a pass misses
* `Remap.erase_fails`: both, and where the fault names a section that the text does not declare
-/

namespace Reskin.Remap

open CallGraph (Reaches)
open Ini (Document Line.isHeader Line.isGeneratedHeader Line.sectionName)

/-! ## Generated resources -/

/-- Calls lead from one of the names to a name that the document does not declare. -/
def Misses (d : Document) (names : List Text) (n : Text) : Prop :=
  (∃ r ∈ names, d.bodies.has r = true ∧ Reaches d.bodies r n) ∧ d.bodies.has n = false

section Resources

variable {d : Document} {names : List Text} (folder : Text)

/-- Resources that are not found fail for a section that is missing. -/
theorem exists_misses_of_generatedResources {folder : Text} {fault : Fault}
    (h : generatedResources folder d names = .error fault) :
    ∃ n, fault = .missingSection n ∧ Misses d names n := by
  unfold generatedResources at h
  dsimp only at h
  split at h
  · next n g hb =>
    obtain ⟨hn, r, hr, hreach⟩ := CallGraph.build_missing hb
    obtain ⟨hr, hhas⟩ := List.mem_filter.1 hr
    exact ⟨n, (Except.error.inj h).symm, ⟨r, hr, hhas, hreach⟩, hn⟩
  · simp at h

theorem exists_generatedResources_iff :
    (∃ r, generatedResources folder d names = .ok r) ↔ ∀ n, ¬ Misses d names n := by
  have hbuild : (∃ g, (CallGraph.empty .blend).build (names.filter d.bodies.has) d.bodies =
      (none, g)) ↔ _ := CallGraph.exists_build_iff
  constructor
  · rintro ⟨res, h⟩ n ⟨⟨r, hr, hhas, hreach⟩, hn⟩
    unfold generatedResources at h
    dsimp only at h
    split at h
    · simp at h
    · next g hb =>
      have := hbuild.1 ⟨g, hb⟩ r (List.mem_filter.2 ⟨hr, hhas⟩) n hreach
      simp [this] at hn
  · intro h
    obtain ⟨g, hg⟩ := hbuild.2 fun r hr n hreach => by
      obtain ⟨hr, hhas⟩ := List.mem_filter.1 hr
      by_contra hn
      exact h n ⟨⟨r, hr, hhas, hreach⟩, by simpa using hn⟩
    unfold generatedResources
    simp only [hg]
    exact ⟨_, rfl⟩

end Resources

/-! ## The two passes -/

/-- The names of the generated sections outside of fences, without repetition. -/
def strayNames (t : Text) : List Text :=
  (sweep false (Text.lines (Fence.cut t).2)).names.eraseDups

/-- The names that go in the second pass are those of the generated headers. -/
theorem names_sweep (removing : Bool) (ls : List Text) : (sweep removing ls).names =
    (ls.filter fun l => Line.isHeader l && Line.isGeneratedHeader l).map Line.sectionName := by
  induction ls generalizing removing with
  | nil => rfl
  | cons l ls ih =>
    rw [sweep]
    by_cases hh : Line.isHeader l = true
    · by_cases hg : Line.isGeneratedHeader l = true <;> simp [hh, hg, ih]
    · cases removing with
      | true => simp [hh, ih]
      | false => by_cases hb : Ini.Line.isBoilerplate l = true <;> simp [hh, hb, ih]

theorem isGenerated_of_mem_strayNames {t r : Text} (h : r ∈ strayNames t) :
    Naming.isGenerated r = true := by
  rw [strayNames, List.mem_eraseDups, names_sweep] at h
  obtain ⟨l, hl, rfl⟩ := List.mem_map.1 h
  obtain ⟨hl, hg⟩ := List.mem_filter.1 hl
  rw [Bool.and_eq_true] at hg
  exact (Ini.Line.isGeneratedHeader_iff_of_mem_lines hl hg.1).1 hg.2

section Passes

variable (folder : Text) {t : Text}

/-- A pass finds its resources exactly if it misses no section. -/
theorem exists_passResources_iff {active : Bool} {names : List Text}
    (h : active = false → names = []) :
    (∃ r, passResources folder t active names = .ok r) ↔
      ∀ n, ¬ Misses (Document.plain t) names n := by
  cases active with
  | true => exact exists_generatedResources_iff folder
  | false =>
    obtain rfl := h rfl
    simp [passResources, Misses]

theorem exists_misses_of_passResources {folder : Text} {active : Bool} {names : List Text}
    {fault : Fault} (h : passResources folder t active names = .error fault) :
    ∃ n, fault = .missingSection n ∧ Misses (Document.plain t) names n := by
  cases active with
  | true => exact exists_misses_of_generatedResources h
  | false => simp [passResources] at h

/-- The resources of the first pass. -/
def firstResources (folder t : Text) : Except Fault (Table Buffers) :=
  passResources folder t (!(Fence.cut t).1.isEmpty) (fencedNames (Fence.cut t).1)

/-- The resources of the second pass. -/
def secondResources (folder t : Text) : Except Fault (Table Buffers) :=
  passResources folder (Fence.cut t).2 (!(strayNames t).isEmpty) (strayNames t)

theorem exists_firstResources_iff : (∃ r, firstResources folder t = .ok r) ↔
    ∀ n, ¬ Misses (Document.plain t) (fencedNames (Fence.cut t).1) n := by
  refine exists_passResources_iff folder fun h => ?_
  have hnil : (Fence.cut t).1 = [] := by simpa using h
  rw [hnil]
  rfl

theorem exists_secondResources_iff : (∃ r, secondResources folder t = .ok r) ↔
    ∀ n, ¬ Misses (Document.plain (Fence.cut t).2) (strayNames t) n :=
  exists_passResources_iff folder fun h => by simpa using h

/-- Erasure runs the two passes one after the other. -/
theorem erase_eq (folder t : Text) : erase folder t = (firstResources folder t >>= fun first =>
    secondResources folder t >>= fun second =>
      let e : Erasure := passes t (second.foldl (fun t r => t.put r.1 r.2) first)
      .ok (if e.isUnchanged then { e with text := t } else e)) := rfl

/-- Erasure fails where one of the passes does, the first one before the second. -/
theorem erase_cases :
    (∃ fault, erase folder t = .error fault ∧ (firstResources folder t = .error fault ∨
      (∃ r, firstResources folder t = .ok r) ∧ secondResources folder t = .error fault)) ∨
    (∃ e, erase folder t = .ok e) ∧ (∃ r, firstResources folder t = .ok r) ∧
      ∃ r, secondResources folder t = .ok r := by
  have he := erase_eq folder t
  cases hf : firstResources folder t with
  | error fault => exact .inl ⟨fault, by rw [he, hf]; rfl, .inl rfl⟩
  | ok first =>
    cases hs : secondResources folder t with
    | error fault => exact .inl ⟨fault, by rw [he, hf, hs]; rfl, .inr ⟨⟨_, rfl⟩, rfl⟩⟩
    | ok second => exact .inr ⟨⟨_, by rw [he, hf, hs]; rfl⟩, ⟨_, rfl⟩, ⟨_, rfl⟩⟩

/-- The second pass of a text whose sections are known ends where its walk does. -/
theorem erase_eq_error_of_walk {folder m kept : Text} {k : Nat} {names : List Text}
    {out : Ini.Bodies} (hfirst : ∀ n, ¬ Misses (Document.plain t) (fencedNames (Fence.cut t).1) n)
    (hkept : (Fence.cut t).2 = kept) (hnames : strayNames t = names)
    (h : CallGraph.walkWithin (Document.plain kept).bodies k []
      (names.filter (Document.plain kept).bodies.has) = some (some m, out)) :
    erase folder t = .error (.missingSection m) := by
  have hsecond : secondResources folder t = .error (.missingSection m) := by
    have hne : names ≠ [] := by
      rintro rfl
      simp [CallGraph.walkWithin] at h
    have hwalk := CallGraph.walk_eq_of_walkWithin h
    rw [secondResources, hnames, hkept, passResources, if_pos (by simpa using hne)]
    simp only [generatedResources, CallGraph.build, hwalk]
  obtain ⟨first, hfirst⟩ := (exists_firstResources_iff folder).2 hfirst
  rcases erase_cases folder (t := t) with ⟨fault, he, h | ⟨-, h⟩⟩ | ⟨-, -, r, h⟩
  · simp [h] at hfirst
  · obtain rfl := Except.error.inj (h.symm.trans hsecond)
    exact he
  · simp [h] at hsecond

/-! ## Faults -/

/-- **Erasure succeeds** exactly if neither pass misses a section. -/
theorem exists_erase_iff : (∃ e, erase folder t = .ok e) ↔
    ∀ n, ¬ Misses (Document.plain t) (fencedNames (Fence.cut t).1) n ∧
      ¬ Misses (Document.plain (Fence.cut t).2) (strayNames t) n := by
  rw [forall_and, ← exists_firstResources_iff folder, ← exists_secondResources_iff folder]
  rcases erase_cases folder (t := t) with ⟨fault, he, hpass⟩ | ⟨he, hfirst, hsecond⟩
  · refine iff_of_false (by simp [he]) ?_
    rintro ⟨⟨r, hfirst⟩, r', hsecond⟩
    rcases hpass with h | ⟨-, h⟩
    · simp [h] at hfirst
    · simp [h] at hsecond
  · exact iff_of_true he ⟨hfirst, hsecond⟩

/-- **The fault** names a section that one of the passes misses. -/
theorem exists_misses_of_erase {folder : Text} {fault : Fault}
    (h : erase folder t = .error fault) : ∃ n, fault = .missingSection n ∧
      (Misses (Document.plain t) (fencedNames (Fence.cut t).1) n ∨
        (∀ m, ¬ Misses (Document.plain t) (fencedNames (Fence.cut t).1) m) ∧
          Misses (Document.plain (Fence.cut t).2) (strayNames t) n) := by
  rcases erase_cases folder (t := t) with ⟨fault', he, hpass⟩ | ⟨⟨e, he⟩, -, -⟩
  · obtain rfl : fault' = fault := Except.error.inj (he.symm.trans h)
    rcases hpass with hf | ⟨hf, hs⟩
    · obtain ⟨n, rfl, hn⟩ := exists_misses_of_passResources hf
      exact ⟨n, rfl, .inl hn⟩
    · obtain ⟨n, rfl, hn⟩ := exists_misses_of_passResources hs
      exact ⟨n, rfl, .inr ⟨(exists_firstResources_iff folder).1 hf, hn⟩⟩
  · simp [he] at h

end Passes

/-- The sections of a text that erasure removes: those inside a fence, and those with a generated
name. -/
def Removed (t r : Text) : Prop :=
  (Document.plain t).bodies.has r = true ∧
    (r ∈ fencedNames (Fence.cut t).1 ∨ Naming.isGenerated r = true)

/-- A removed section leads, through calls, to a name that the text does not declare. -/
def Lacks (t n : Text) : Prop :=
  (∃ r, Removed t r ∧ Reaches (Document.plain t).bodies r n) ∧
    (Document.plain t).bodies.has n = false

theorem lacks_of_misses {t n : Text}
    (h : Misses (Document.plain t) (fencedNames (Fence.cut t).1) n) : Lacks t n := by
  obtain ⟨⟨r, hr, hhas, hreach⟩, hn⟩ := h
  exact ⟨⟨r, ⟨hhas, .inl hr⟩, hreach⟩, hn⟩

/-- Where no fence is cut out, erasure removes the generated sections. -/
theorem lacks_iff_of_no_fence {t n : Text} (hcut : Fence.cut t = ([], t)) :
    Lacks t n ↔ Misses (Document.plain (Fence.cut t).2) (strayNames t) n := by
  have hkept : (Fence.cut t).2 = t := by rw [hcut]
  rw [hkept]
  refine and_congr_left fun _ => exists_congr fun r => ?_
  constructor
  · rintro ⟨⟨hhas, hr⟩, hreach⟩
    refine ⟨?_, hhas, hreach⟩
    have hr : Naming.isGenerated r = true := hr.resolve_left (by simp [hcut, fencedNames])
    obtain ⟨l, hmem, hh, rfl⟩ := Document.exists_header_of_has hhas
    have hg := (Ini.Line.isGeneratedHeader_iff_of_mem_lines hmem hh).2 hr
    rw [strayNames, hkept, List.mem_eraseDups, names_sweep]
    exact List.mem_map_of_mem (List.mem_filter.2 ⟨hmem, by simp [hh, hg]⟩)
  · rintro ⟨hr, hhas, hreach⟩
    exact ⟨⟨hhas, .inr (isGenerated_of_mem_strayNames hr)⟩, hreach⟩

/-- **Without a fence** erasure succeeds exactly if the text lacks no section. -/
theorem exists_erase_iff_of_no_fence (folder : Text) {t : Text} (hcut : Fence.cut t = ([], t)) :
    (∃ e, erase folder t = .ok e) ↔ ∀ n, ¬ Lacks t n := by
  rw [exists_erase_iff]
  refine forall_congr' fun n => ?_
  rw [lacks_iff_of_no_fence hcut]
  refine and_iff_right ?_
  simp [hcut, fencedNames, Misses]

/-- Without a fence the fault names a section that the text lacks. -/
theorem exists_lacks_of_no_fence {folder t : Text} (hcut : Fence.cut t = ([], t)) {fault : Fault}
    (h : erase folder t = .error fault) : ∃ n, fault = .missingSection n ∧ Lacks t n := by
  obtain ⟨n, rfl, hn⟩ := exists_misses_of_erase h
  refine ⟨n, rfl, ?_⟩
  rcases hn with hfirst | ⟨-, hsecond⟩
  · exact lacks_of_misses hfirst
  · exact (lacks_iff_of_no_fence hcut).2 hsecond

/-- A text lacks nothing if a walk from all of its sections ends. -/
theorem not_lacks_of_walk {t : Text} {k : Nat} {bodies out : Ini.Bodies}
    (hbodies : (Document.plain t).bodies = bodies)
    (h : CallGraph.walkWithin bodies k [] bodies.names = some (none, out)) (n : Text) :
    ¬ Lacks t n := by
  rintro ⟨⟨r, ⟨hr, -⟩, hreach⟩, hn⟩
  rw [hbodies] at hr hreach hn
  have hbuild := CallGraph.build_eq_of_walkWithin (g := .empty .blend) h
  obtain ⟨b, hb⟩ := Table.has_iff.1 hr
  have := CallGraph.exists_build_iff.1 ⟨_, hbuild⟩ r (List.mem_map.2 ⟨_, hb, rfl⟩) n hreach
  simp [this] at hn

/-- **When erasure fails.** The fault names a section that the removed sections of one of the passes
lead to and the text of that pass does not declare, and without such a section erasure succeeds. It
is one that the whole text lacks, unless the first pass goes through and the second one misses a
section in what is left without the fences. -/
theorem erase_fails (folder t : Text) :
    (∀ fault, erase folder t = .error fault → ∃ n, fault = .missingSection n ∧
      (Misses (Document.plain t) (fencedNames (Fence.cut t).1) n ∨
        Misses (Document.plain (Fence.cut t).2) (strayNames t) n)) ∧
    ((∃ e, erase folder t = .ok e) ↔
      ∀ n, ¬ Misses (Document.plain t) (fencedNames (Fence.cut t).1) n ∧
        ¬ Misses (Document.plain (Fence.cut t).2) (strayNames t) n) ∧
    ((Fence.cut t).1 = [] ∨ (∃ n, Misses (Document.plain t) (fencedNames (Fence.cut t).1) n) ∨
        (∀ n, ¬ Misses (Document.plain (Fence.cut t).2) (strayNames t) n) →
      (∀ n, erase folder t = .error (.missingSection n) → Lacks t n) ∧
        ((∀ n, ¬ Lacks t n) → ∃ e, erase folder t = .ok e)) := by
  have hfault (fault : Fault) (h : erase folder t = .error fault) := exists_misses_of_erase h
  refine ⟨fun fault h => ?_, exists_erase_iff folder, fun hcase => ?_⟩
  · obtain ⟨n, hn, hm⟩ := hfault fault h
    exact ⟨n, hn, hm.imp_right And.right⟩
  have hlacks (n : Text) (h : erase folder t = .error (.missingSection n)) : Lacks t n := by
    obtain ⟨m, hm, hmiss⟩ := hfault _ h
    obtain rfl : n = m := by simpa using hm
    rcases hmiss with hfirst | ⟨hfirst, hsecond⟩
    · exact lacks_of_misses hfirst
    rcases hcase with hnil | ⟨m, hm⟩ | hnone
    · exact (lacks_iff_of_no_fence (Fence.cut_eq_self_of_nil hnil)).2 hsecond
    · exact absurd hm (hfirst m)
    · exact absurd hsecond (hnone n)
  refine ⟨hlacks, fun hno => ?_⟩
  cases he : erase folder t with
  | ok e => exact ⟨e, rfl⟩
  | error fault =>
    obtain ⟨n, rfl, -⟩ := hfault fault he
    exact absurd (hlacks n he) (hno n)

/-- A generated section that runs a section which is nowhere. -/
def lostText : Text := Text.unlines .lf ["[HeadRemapFix]".toList, "run = Lost".toList]

/-- Its erasure fails for the section that it runs. -/
theorem erase_fails_lost :
    (¬ ∃ e, erase [] lostText = .ok e) ∧
      ∀ n, erase [] lostText = .error (.missingSection n) → Lacks lostText n := by
  have hcut : Fence.cut lostText = ([], lostText) := Fence.cut_of_not_mem (by decide)
  obtain ⟨-, hok, hlacks⟩ := erase_fails [] lostText
  refine ⟨fun h => (hok.1 h "Lost".toList).2 ?_, (hlacks (.inl (by rw [hcut]))).1⟩
  have hstray : strayNames lostText = ["HeadRemapFix".toList] := by
    rw [strayNames, hcut]
    decide +kernel
  rw [hcut, hstray]
  refine ⟨⟨_, List.mem_singleton_self _, by decide +kernel, .single ?_⟩, by decide +kernel⟩
  exact ⟨_, Option.eq_some_of_isSome (by decide +kernel), by decide +kernel⟩

/-! ## A call into a fence -/

/-- A generated section outside of fences. -/
def crossingHead : Text :=
  Text.unlines .lf ["[HeadRemapFix]".toList, "run = TailRemapFix".toList]

/-- A fence with the section that it runs. -/
def crossingFence : Text :=
  Text.unlines .lf ["; --------------- Raiden Remap ---------------".toList,
    "[TailRemapFix]".toList, "hash = 111".toList] ++
  "; --------------------------------------------".toList

/-- The sections of the text that both make. -/
def crossingBodies : Ini.Bodies :=
  [("HeadRemapFix".toList, [.content [("run".toList, "TailRemapFix".toList)]]),
    ("TailRemapFix".toList, [.content [("hash".toList, "111".toList)]])]

theorem bodies_crossing :
    (Document.plain (crossingHead ++ crossingFence)).bodies = crossingBodies := by
  decide +kernel

theorem cut_crossing : Fence.cut (crossingHead ++ crossingFence) =
    ([crossingFence], crossingHead) := by
  have hafter : Fence.after? (crossingFence ++ []) = some [] := by decide +kernel
  rw [Fence.cut_append_of_not_mem (by decide), ← List.append_nil crossingFence,
    Fence.cut_of_after? (by decide) hafter, Fence.cut_nil, List.append_nil, List.append_nil]

/-- **A call into a fence**: the second pass misses the section that only the fence declares, though
the text declares all that its removed sections reach. -/
theorem erase_crossing :
    erase "mods".toList (crossingHead ++ crossingFence) =
        .error (.missingSection "TailRemapFix".toList) ∧
      (Document.plain (crossingHead ++ crossingFence)).bodies.has "TailRemapFix".toList = true ∧
      ∀ n, ¬ Lacks (crossingHead ++ crossingFence) n := by
  have hwalk : CallGraph.walkWithin crossingBodies 3 [] crossingBodies.names =
      some (none, crossingBodies) := by decide +kernel
  have hlacks := not_lacks_of_walk bodies_crossing hwalk
  refine ⟨?_, by rw [bodies_crossing]; decide +kernel, hlacks⟩
  have hnames : strayNames (crossingHead ++ crossingFence) = ["HeadRemapFix".toList] := by
    rw [strayNames, cut_crossing]
    decide +kernel
  have hsecond : CallGraph.walkWithin (Document.plain crossingHead).bodies 2 []
      (["HeadRemapFix".toList].filter (Document.plain crossingHead).bodies.has) =
        some (some "TailRemapFix".toList, (Document.plain crossingHead).bodies) := by
    decide +kernel
  -- the first pass reads the whole text, so it finds the section in the fence
  exact erase_eq_error_of_walk (fun n hn => hlacks n (lacks_of_misses hn))
    (congrArg Prod.snd cut_crossing) hnames hsecond

end Reskin.Remap
