import Reskin.Disk

/-!
# Reading back what is written

A file that is written stands where its path leads, and it stands in the way of nothing: paths go
through folders only, and no folder is replaced by a file.

## Main definitions

* `Disk.SameTree`: disks with folders and files at the same places
* `Disk.Apart`: paths that lead to different places

## Main results

* `Disk.locate_put`: paths lead where they led before
* `Disk.readText_eq_ok`, `Disk.writeText_eq_ok`: when a text is read, and when one is written
* `Disk.writeText_readText`, `Disk.writeText_writeText`: texts that are written back, and written over
* `Disk.readText_writeText`: a text that is written is read back
* `Disk.node?_writeText_of_ne`: what is not written stays
* `Disk.sameTree_writeText`: a file that is written where one was read stands in no way
-/

namespace Reskin.Disk

variable {d d' : Disk}

/-- Paths go through folders only. -/
theorem follow_of_folders (h : ∀ m, d.node? m = some .folder → d'.node? m = some .folder)
    {parts : List Text} {l l' : Location} (hl : d.follow l parts = .ok l') :
    d'.follow l parts = .ok l' := by
  induction parts generalizing l with
  | nil => exact hl
  | cons part parts ih =>
    rw [follow] at hl ⊢
    split at hl
    · simp at hl
    · simp at hl
    · next hn =>
      rw [h _ hn]
      exact ih hl

/-- **Paths lead where they led** when a file is put where no folder is. -/
theorem locate_put {path : Text} {l l' : Location} {bytes : ByteArray}
    (hn : d.node? l ≠ some .folder) (hl : d.locate path = .ok l') :
    (d.put l (.file bytes)).locate path = .ok l' := by
  have hfolders (m : Location) (hm : d.node? m = some .folder) :
      (d.put l (.file bytes)).node? m = some .folder := by
    have hne : m ≠ l := by
      rintro rfl
      exact hn hm
    rw [node?_put_of_ne d _ hne, hm]
  unfold locate at hl ⊢
  split
  · next hp => simp [hp] at hl
  · next hp => exact follow_of_folders hfolders (by simpa [hp] using hl)

/-! ## Putting -/

/-- A node that is put again in its place changes nothing. -/
theorem put_self {l : Location} {n : Node} (hl : l ≠ []) (h : d.node? l = some n) : d.put l n = d := by
  obtain ⟨es⟩ := d
  cases l with
  | nil => exact absurd rfl hl
  | cons p l =>
    simp only [put, node?] at h ⊢
    congr 1
    induction es with
    | nil => simp at h
    | cons e es ih =>
      by_cases he : e.1 = p :: l
      · obtain rfl : e.2 = n := by simpa [he] using h
        rw [putNode, if_pos he, ← he]
      · rw [putNode, if_neg he, ih (by simpa [he] using h)]

/-- Of two nodes put in one place the later one stays. -/
theorem put_put (d : Disk) (l : Location) (n m : Node) : (d.put l n).put l m = d.put l m := by
  obtain ⟨es⟩ := d
  simp only [put]
  congr 1
  induction es with
  | nil => simp [putNode]
  | cons e es ih =>
    by_cases he : e.1 = l
    · simp [putNode, he]
    · simp [putNode, he, ih]

/-! ## Writing -/

/-- **A text that is read** is that of the file where its path leads. -/
theorem readText_eq_ok {path t : Text} : d.readText path = .ok t ↔
    ∃ l, d.locate path = .ok l ∧ d.node? l = some (.file t.utf8) := by
  unfold readText read
  cases d.locate path with
  | error fault => simp
  | ok l =>
    rcases hn : d.node? l with _ | _ | bytes
    · simp [hn]
    · simp [hn]
    · have hbytes : bytes = t.utf8 ↔ Text.ofUtf8? bytes = some t := Text.ofUtf8?_eq_some.symm
      cases ht : Text.ofUtf8? bytes <;> simp [hn, hbytes, ht]

/-- A text is written where no folder is. -/
theorem writeText_eq_ok {path t : Text} : d.writeText path t = .ok d' ↔
    ∃ l, d.locate path = .ok l ∧ d.node? l ≠ some .folder ∧ d' = d.put l (.file t.utf8) := by
  unfold writeText write
  cases d.locate path with
  | error fault => simp
  | ok l => rcases hn : d.node? l with _ | _ | bytes <;> simp [hn, eq_comm]

/-- The file at a path that is read can be written. -/
theorem exists_writeText {path t : Text} (h : d.readText path = .ok t) (u : Text) :
    ∃ d', d.writeText path u = .ok d' := by
  obtain ⟨l, hl, hn⟩ := readText_eq_ok.1 h
  exact ⟨_, writeText_eq_ok.2 ⟨l, hl, by simp [hn], rfl⟩⟩

/-- **A text that is written back** where it was read changes nothing. -/
theorem writeText_readText {path t : Text} (h : d.readText path = .ok t) :
    d.writeText path t = .ok d := by
  obtain ⟨l, hl, hn⟩ := readText_eq_ok.1 h
  have hne : l ≠ [] := by
    rintro rfl
    cases hn
  exact writeText_eq_ok.2 ⟨l, hl, by simp [hn], (put_self hne hn).symm⟩

section Writing

variable {path t : Text} (h : d.writeText path t = .ok d')

include h

/-- A text that is written stands where its path leads. -/
theorem node?_writeText_self {l : Location} (hl : d.locate path = .ok l) :
    d'.node? l = some (.file t.utf8) := by
  obtain ⟨l', hl', hn, rfl⟩ := writeText_eq_ok.1 h
  obtain rfl := Except.ok.inj (hl.symm.trans hl')
  refine node?_put_self d _ ?_
  rintro rfl
  exact hn rfl

/-- **A text that is written** is read back. -/
theorem readText_writeText : d'.readText path = .ok t := by
  obtain ⟨l, hl, hn, rfl⟩ := writeText_eq_ok.1 h
  have hne : l ≠ [] := by
    rintro rfl
    exact hn rfl
  unfold readText read
  simp only [locate_put hn hl, node?_put_self d _ hne, Text.ofUtf8?_utf8]

/-- **Nothing else** is touched. -/
theorem node?_writeText_of_ne {l : Location} (hl : d.locate path ≠ .ok l) :
    d'.node? l = d.node? l := by
  obtain ⟨l', hl', -, rfl⟩ := writeText_eq_ok.1 h
  refine node?_put_of_ne d _ ?_
  rintro rfl
  exact hl hl'

/-- **Of two texts written to one path** the later one stays. -/
theorem writeText_writeText (u : Text) : d'.writeText path u = d.writeText path u := by
  obtain ⟨l, hl, hn, rfl⟩ := writeText_eq_ok.1 h
  have hne : l ≠ [] := by
    rintro rfl
    exact hn rfl
  rw [(writeText_eq_ok (t := u)).2 ⟨l, hl, hn, rfl⟩]
  refine writeText_eq_ok.2 ⟨l, locate_put hn hl, ?_, (put_put d l _ _).symm⟩
  simp [node?_put_self d _ hne]

/-- The folders stay the same. -/
theorem node?_writeText_eq_folder {l : Location} :
    d'.node? l = some .folder ↔ d.node? l = some .folder := by
  obtain ⟨l', -, hn, rfl⟩ := writeText_eq_ok.1 h
  by_cases hll : l = l'
  · subst hll
    by_cases hnil : l = []
    · subst hnil
      exact absurd rfl hn
    · simp [node?_put_self d _ hnil, hn]
  · rw [node?_put_of_ne d _ hll]

/-- Paths lead where they led, and nowhere else. -/
theorem locate_writeText {other : Text} {l : Location} :
    d'.locate other = .ok l ↔ d.locate other = .ok l := by
  unfold locate
  split
  · exact Iff.rfl
  · exact ⟨follow_of_folders fun _ => (node?_writeText_eq_folder h).1,
      follow_of_folders fun _ => (node?_writeText_eq_folder h).2⟩

end Writing

/-! ## Disks with the same tree -/

/-- Whether a node is a folder. -/
def Node.isFolder : Node → Bool
  | .folder => true
  | .file _ => false

/-- **Two disks have the same tree**: folders and files stand at the same places. -/
def SameTree (d d' : Disk) : Prop :=
  ∀ l, (d'.node? l).map Node.isFolder = (d.node? l).map Node.isFolder

theorem SameTree.refl (d : Disk) : SameTree d d := fun _ => rfl

theorem SameTree.trans {d'' : Disk} (h : SameTree d d') (h' : SameTree d' d'') : SameTree d d'' :=
  fun l => (h' l).trans (h l)

/-- On both disks a path leads to the same place, or fails in the same way. -/
theorem SameTree.locate (h : SameTree d d') (path : Text) : d'.locate path = d.locate path := by
  have hfollow (parts : List Text) (l : Location) : d'.follow l parts = d.follow l parts := by
    induction parts generalizing l with
    | nil => rfl
    | cons part parts ih =>
      have hl := h l
      rw [follow, follow]
      rcases hn : d.node? l with _ | _ | bytes <;> rcases hn' : d'.node? l with _ | _ | bytes' <;>
        simp [hn, hn', Node.isFolder] at hl ⊢
      exact ih _
  rw [Disk.locate, Disk.locate, hfollow]

/-- **A file that is written where a file was read** leaves the tree as it was. -/
theorem sameTree_writeText {path c t : Text} (hread : d.readText path = .ok c)
    (h : d.writeText path t = .ok d') : SameTree d d' := by
  obtain ⟨l, hl, hn⟩ := readText_eq_ok.1 hread
  intro m
  by_cases hm : m = l
  · subst hm
    rw [node?_writeText_self h hl, hn]
    rfl
  · rw [node?_writeText_of_ne h fun hl' => hm (Except.ok.inj (hl'.symm.trans hl))]

/-- A file that stands where it stood is read as it was. -/
theorem SameTree.readText (h : SameTree d d') {path : Text}
    (hn : ∀ l, d.locate path = .ok l → d'.node? l = d.node? l) :
    d'.readText path = d.readText path := by
  unfold Disk.readText read
  rw [h.locate]
  cases hl : d.locate path with
  | error fault => rfl
  | ok l => simp only [hn l hl]

/-- **Paths that lead to different places**, where they lead anywhere. -/
def Apart (d : Disk) (paths : List Text) : Prop :=
  paths.Pairwise fun p q => ∀ l, d.locate p = .ok l → d.locate q ≠ .ok l

theorem Apart.of_perm {paths paths' : List Text} (h : d.Apart paths) (hp : paths.Perm paths') :
    d.Apart paths' :=
  (hp.pairwise_iff fun hpq l hq hp => hpq l hp hq).1 h

end Reskin.Disk
