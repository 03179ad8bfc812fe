import CardDeck.Disk

/-! # Reading and writing files

A file is read if its path leads to it and reading is not refused there: `Disk.read_eq_ok_iff`. It
takes a content exactly if its path leads somewhere, and there is no directory and no refusal there:
`Disk.write_eq_ok_iff`. The file holds the content then, and nothing else on the disk has changed:
`Disk.Takes.rewrites_put`. Only directories lead to the file, so none of them is the file, and its
path leads to the same place as before. -/

namespace CardDeck.Disk

/-! ### Places -/

/-- The parts of a path lead from one place to another: on the way there are directories that may be
entered, and no name is too long. -/
inductive Leads (d : Disk) : Location → List String → Location → Prop
  | here (l : Location) : Leads d l [] l
  | enter {start l : Location} {part : String} {parts : List String}
      (hnode : d.node? start = some .directory) (hrefusal : d.refusal? .enter start = none)
      (hpart : part.utf8ByteSize ≤ maxName) (h : Leads d (start.enter part) parts l) :
      Leads d start (part :: parts) l

variable {d d' : Disk} {l l' start : Location} {n : Node} {p : Path} {bytes : List UInt8}
  {parts : List String}

theorem follow_eq_ok_iff : d.follow start parts = .ok l ↔ d.Leads start parts l := by
  induction parts generalizing start with
  | nil =>
    constructor
    · rintro ⟨⟩
      exact .here _
    · rintro ⟨⟩
      rfl
  | cons part parts ih =>
    constructor
    · intro h
      rw [follow] at h
      split at h
      · cases h
      · cases h
      · cases h
      · next hnode hrefusal =>
        split at h
        · cases h
        · next hpart => exact .enter hnode hrefusal (Nat.le_of_not_lt hpart) (ih.1 h)
    · rintro (_ | ⟨hnode, hrefusal, hpart, h⟩)
      simp only [follow, hnode, hrefusal, Nat.not_lt.2 hpart, if_false]
      exact ih.2 h

/-- A path leads to a place. -/
structure IsAt (d : Disk) (p : Path) (l : Location) : Prop where
  text_le : p.text.utf8ByteSize ≤ maxPath
  leads : d.Leads { absolute := p.root ≠ "" } p.parts l

theorem locate_eq_ok_iff : d.locate p = .ok l ↔ d.IsAt p l := by
  rw [locate]
  constructor
  · intro h
    split at h
    · cases h
    · next hlength => exact ⟨Nat.le_of_not_lt hlength, follow_eq_ok_iff.1 h⟩
  · rintro ⟨hlength, hleads⟩
    rw [if_neg (Nat.not_lt.2 hlength)]
    exact follow_eq_ok_iff.2 hleads

/-- A path can be read if it leads to a file that may be read, and it reads as what this holds. -/
theorem read_eq_ok_iff : d.read p = .ok bytes ↔
    ∃ l, d.IsAt p l ∧ d.node? l = some (.file bytes) ∧ d.refusal? .read l = none := by
  constructor
  · intro h
    cases hl : d.locate p with
    | error fault =>
      rw [read, hl] at h
      cases h
    | ok l =>
      rw [read, hl] at h
      simp only [bind, Except.bind] at h
      split at h
      · cases h
      · cases h
      · cases h
      · next hnode hrefusal =>
        cases h
        exact ⟨l, locate_eq_ok_iff.1 hl, hnode, hrefusal⟩
  · rintro ⟨l, hat, hnode, hrefusal⟩
    simp [read, locate_eq_ok_iff.2 hat, bind, Except.bind, pure, Except.pure, hnode, hrefusal]

/-- The file at the place that a path leads to may be given a content. -/
structure Takes (d : Disk) (p : Path) (l : Location) : Prop where
  isAt : d.IsAt p l
  node?_ne : d.node? l ≠ some .directory
  refusal?_eq : d.refusal? .write l = none

theorem write_eq_ok_iff :
    d.write p bytes = .ok d' ↔ ∃ l, d.Takes p l ∧ d' = d.put l (.file bytes) := by
  constructor
  · intro h
    cases hl : d.locate p with
    | error fault =>
      rw [write, hl] at h
      cases h
    | ok l =>
      rw [write, hl] at h
      simp only [bind, Except.bind] at h
      split at h
      · cases h
      · next hnode =>
        simp only [pure, Except.pure] at h
        split at h
        · cases h
        · next hrefusal =>
          exact ⟨l, ⟨locate_eq_ok_iff.1 hl, hnode, hrefusal⟩, (Except.ok.inj h).symm⟩
  · rintro ⟨l, ⟨hat, hnode, hrefusal⟩, rfl⟩
    simp [write, locate_eq_ok_iff.2 hat, bind, Except.bind, pure, Except.pure, hnode, hrefusal]

/-! ### Changes -/

/-- What is put somewhere is there, except in place of the directories that need no mention. -/
theorem node?_put_self (h : l.down ≠ []) : (d.put l n).node? l = some n := by
  simp [node?, put, h]

theorem node?_put_of_ne (h : l' ≠ l) : (d.put l n).node? l' = d.node? l' := by
  have hfind : (d.put l n).nodes.find? (·.1 = l') = d.nodes.find? (·.1 = l') := by
    rw [put, List.find?_cons_of_neg (by simpa using Ne.symm h), List.find?_filter]
    refine congrArg (List.find? · d.nodes) (funext fun node => ?_)
    by_cases hnode : node.1 = l'
    · simp [hnode, h]
    · simp [hnode]
  rw [node?, node?, hfind]

/-- Only directories lead on, so a path is not led astray by a change of what is none. -/
theorem Leads.put (h : d.Leads start parts l') (hl : d.node? l ≠ some .directory) :
    (d.put l n).Leads start parts l' := by
  induction h with
  | here => exact .here _
  | @enter start part parts l' hnode hrefusal hpart _ ih =>
    have hne : start ≠ l := fun heq => hl (heq ▸ hnode)
    exact .enter ((node?_put_of_ne hne).trans hnode) hrefusal hpart ih

/-- On the second disk the file at the path holds these bytes. Everything at other places is as it
is on the first one, and the same accesses are refused. -/
structure Rewrites (d d' : Disk) (p : Path) (bytes : List UInt8) : Prop where
  node?_eq : ∃ l, d.IsAt p l ∧ d'.IsAt p l ∧ d'.node? l = some (.file bytes) ∧
    ∀ other, other ≠ l → d'.node? other = d.node? other
  refusal?_eq : d'.refusal? = d.refusal?

theorem Takes.rewrites_put (h : d.Takes p l) : d.Rewrites (d.put l (.file bytes)) p bytes := by
  have hdown : l.down ≠ [] := fun hdown => h.node?_ne (if_pos hdown)
  have hat : (d.put l (.file bytes)).IsAt p l := ⟨h.isAt.text_le, h.isAt.leads.put h.node?_ne⟩
  exact ⟨⟨l, h.isAt, hat, node?_put_self hdown, fun other => node?_put_of_ne⟩, rfl⟩

/-- A file that has been written can be read, unless that is refused. -/
theorem Rewrites.read_eq (h : d.Rewrites d' p bytes) (hread : ∀ l, d.refusal? .read l = none) :
    d'.read p = .ok bytes := by
  obtain ⟨⟨l, -, hat, hnode, -⟩, hrefusal⟩ := h
  refine read_eq_ok_iff.2 ⟨l, hat, hnode, ?_⟩
  rw [hrefusal]
  exact hread l

/-! ### The files of a disk -/

theorem files_read_eq (d : Disk) (p : Path) : files.read p d = (d.read p, d) := rfl

theorem files_write_eq (d : Disk) (p : Path) (bytes : List UInt8) : files.write p bytes d =
    match d.write p bytes with
    | .ok d' => (.ok (), d')
    | .error fault => (.error fault, d) := by
  have hwrite : files.write p bytes d = (match d.write p bytes with
      | .ok d' => do
        set d'
        return .ok ()
      | .error fault => return .error fault : StateM Disk (Except FileFault Unit)) d := rfl
  rw [hwrite]
  cases d.write p bytes <;> rfl

end CardDeck.Disk
