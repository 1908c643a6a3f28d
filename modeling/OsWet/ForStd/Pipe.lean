import OsWet.ForStd.Machine
import Mathlib.Data.List.AList
import Mathlib.Data.Finset.Basic

/-!
# Pipes between processes

A pipe is a queue of bytes of bounded length. Whether a reader of an empty pipe waits or
finds the end of the stream, and whether a writer waits or is sent a signal, depends on who
else has a descriptor for the other end. So what each process has open matters:
`FileTable.descriptors` is the set of its descriptors for one end of a pipe, and there is a
lemma for what each system call does to this set.
-/

namespace OsWet

/-- What a descriptor refers to. Pipes are numbered. -/
inductive OpenFile where
  | other
  | readEnd (pipe : Nat)
  | writeEnd (pipe : Nat)
  deriving DecidableEq, Repr

/-- The open descriptors of a process. -/
abbrev FileTable : Type := AList fun _ : Int => OpenFile

namespace FileTable

variable {ε : Type*} (t : FileTable)

/-- Let `fd` refer to `file`. -/
def set (fd : Int) (file : OpenFile) : FileTable := t.insert fd file

/-- `close(fd)`. -/
def close (fd : Int) : FileTable := t.erase fd

/-- `dup2(old, new)`, which changes nothing when `old` is not open. -/
def dup2 (old new : Int) : FileTable :=
  match t.lookup old with
  | none => t
  | some file => t.set new file

/-- A successful `pipe`: the kernel chooses two descriptors that are not open. -/
def openPipe (pipe : Nat) (fds : Int × Int) : Outcome ε FileTable :=
  if fds.1 ≠ fds.2 ∧ fds.1 ∉ t ∧ fds.2 ∉ t then
    .ok ((t.set fds.1 (.readEnd pipe)).set fds.2 (.writeEnd pipe))
  else .stuck

/-- The descriptors that refer to `file`. -/
def descriptors (file : OpenFile) : Finset Int :=
  ((t.entries.filter fun x => x.2 = file).map Sigma.fst).toFinset

/-- Some descriptor refers to `file`. -/
def Holds (file : OpenFile) : Prop := t.descriptors file ≠ ∅

instance (file : OpenFile) : Decidable (t.Holds file) :=
  inferInstanceAs (Decidable (_ ≠ _))

variable {t} {file : OpenFile} {fd old new : Int}

/-- The descriptors for a file, as a finite set. -/
theorem mem_descriptors : fd ∈ t.descriptors file ↔ t.lookup fd = some file := by
  simp only [descriptors, List.mem_toFinset, List.mem_map, List.mem_filter, decide_eq_true_eq]
  constructor
  · rintro ⟨⟨fd', file'⟩, ⟨hmem, rfl⟩, rfl⟩
    exact AList.mem_lookup_iff.mpr hmem
  · intro h
    exact ⟨⟨fd, file⟩, ⟨AList.mem_lookup_iff.mp h, rfl⟩, rfl⟩

@[simp] theorem descriptors_empty : (∅ : FileTable).descriptors file = ∅ := rfl

/-- An empty table has nothing open. -/
@[simp] theorem not_holds_empty : ¬ (∅ : FileTable).Holds file := fun h => h rfl

/-- A descriptor for a file is one way to have it open. -/
theorem holds_of_lookup (h : t.lookup fd = some file) : t.Holds file := by
  intro hempty
  have hmem := mem_descriptors.mpr h
  rw [hempty] at hmem
  exact absurd hmem (Finset.notMem_empty fd)

/-- Closing takes one descriptor out. -/
@[simp] theorem descriptors_close :
    (t.close fd).descriptors file = (t.descriptors file).erase fd := by
  ext fd'
  rw [Finset.mem_erase, mem_descriptors, mem_descriptors, close]
  by_cases h : fd' = fd
  · subst h
    simp [AList.lookup_erase]
  · rw [AList.lookup_erase_ne h]
    simp [h]

/-- A descriptor that is set refers to its new file, and to no other. -/
theorem descriptors_set {file' : OpenFile} : (t.set new file').descriptors file =
    if file' = file then insert new (t.descriptors file) else (t.descriptors file).erase new := by
  ext fd
  rw [mem_descriptors, set]
  by_cases h : fd = new
  · subst h
    rw [AList.lookup_insert]
    split <;> simp_all
  · rw [AList.lookup_insert_ne h, ← mem_descriptors]
    split <;> simp_all

/-- A copy of a descriptor refers to the same file, and to no other. -/
theorem descriptors_dup2 {file' : OpenFile} (h : old ∈ t.descriptors file') :
    (t.dup2 old new).descriptors file =
      if file' = file then insert new (t.descriptors file) else (t.descriptors file).erase new := by
  rw [dup2, mem_descriptors.mp h, descriptors_set]

/-- Closing and copying give a process no end that it does not have. -/
theorem holds_of_close (h : (t.close fd).Holds file) : t.Holds file := by
  intro hempty
  rw [Holds, descriptors_close, hempty] at h
  exact h rfl

/-- `dup2` opens no file that was not open. -/
theorem holds_of_dup2 (h : (t.dup2 old new).Holds file) : t.Holds file := by
  unfold dup2 at h
  split at h
  · exact h
  · rename_i file' hold
    rw [Holds, descriptors_set] at h
    split at h
    · rename_i heq
      exact holds_of_lookup (heq ▸ hold)
    · intro hempty
      rw [hempty] at h
      exact h rfl

/-- The two new descriptors are the only ones for the new pipe. -/
theorem openPipe_eq_ok {pipe : Nat} {fds : Int × Int} {t' : FileTable}
    (h : (t.openPipe pipe fds : Outcome ε FileTable) = .ok t')
    (hread : t.descriptors (.readEnd pipe) = ∅) (hwrite : t.descriptors (.writeEnd pipe) = ∅) :
    fds.1 ≠ fds.2 ∧ fds.1 ∉ t ∧ fds.2 ∉ t ∧ t'.descriptors (.readEnd pipe) = {fds.1} ∧
      t'.descriptors (.writeEnd pipe) = {fds.2} := by
  unfold openPipe at h
  split at h
  · rename_i hnew
    obtain ⟨hne, hfirst, hsecond⟩ := hnew
    cases h
    refine ⟨hne, hfirst, hsecond, ?_, ?_⟩
    · simp [descriptors_set, hread, hne.symm]
    · simp [descriptors_set, hwrite]
  · cases h

/-! ## The two ends of a pipe -/

variable {pipe : Nat} {ends : Finset Int × Finset Int}

/-- The table has these descriptors for the read end and for the write end of `pipe`. -/
def Ends (t : FileTable) (pipe : Nat) (ends : Finset Int × Finset Int) : Prop :=
  t.descriptors (.readEnd pipe) = ends.1 ∧ t.descriptors (.writeEnd pipe) = ends.2

/-- Closing takes a descriptor out of both ends of a pipe. -/
theorem Ends.close (h : t.Ends pipe ends) (fd : Int) :
    (t.close fd).Ends pipe (ends.1.erase fd, ends.2.erase fd) := by
  obtain ⟨hread, hwrite⟩ := h
  exact ⟨by rw [descriptors_close, hread], by rw [descriptors_close, hwrite]⟩

/-- A copy of a descriptor for the write end. -/
theorem Ends.dup2_write (h : t.Ends pipe ends) (hold : old ∈ ends.2) (new : Int) :
    (t.dup2 old new).Ends pipe (ends.1.erase new, insert new ends.2) := by
  obtain ⟨hread, hwrite⟩ := h
  have hmem : old ∈ t.descriptors (.writeEnd pipe) := hwrite ▸ hold
  refine ⟨?_, ?_⟩
  · rw [descriptors_dup2 hmem, if_neg (by simp), hread]
  · rw [descriptors_dup2 hmem, if_pos rfl, hwrite]

/-- A copy of a descriptor for the read end. -/
theorem Ends.dup2_read (h : t.Ends pipe ends) (hold : old ∈ ends.1) (new : Int) :
    (t.dup2 old new).Ends pipe (insert new ends.1, ends.2.erase new) := by
  obtain ⟨hread, hwrite⟩ := h
  have hmem : old ∈ t.descriptors (.readEnd pipe) := hread ▸ hold
  refine ⟨?_, ?_⟩
  · rw [descriptors_dup2 hmem, if_pos rfl, hread]
  · rw [descriptors_dup2 hmem, if_neg (by simp), hwrite]

/-- The read end is open where some descriptor refers to it. -/
theorem Ends.holds_read (h : t.Ends pipe ends) : t.Holds (.readEnd pipe) ↔ ends.1 ≠ ∅ := by
  rw [Holds, h.1]

/-- The write end is open where some descriptor refers to it. -/
theorem Ends.holds_write (h : t.Ends pipe ends) : t.Holds (.writeEnd pipe) ↔ ends.2 ≠ ∅ := by
  rw [Holds, h.2]

/-- A process that has nothing of the pipe open makes it. -/
theorem Ends.openPipe {fds : Int × Int} {t' : FileTable} (h : t.Ends pipe (∅, ∅))
    (hopen : (t.openPipe pipe fds : Outcome ε FileTable) = .ok t') :
    t'.Ends pipe ({fds.1}, {fds.2}) := by
  obtain ⟨-, -, -, hread, hwrite⟩ := openPipe_eq_ok hopen h.1 h.2
  exact ⟨hread, hwrite⟩

/-- Making a pipe opens no other one. -/
theorem Ends.openPipe_of_ne {fds : Int × Int} {other : Nat} {t' : FileTable}
    (h : t.Ends pipe (∅, ∅)) (hne : other ≠ pipe)
    (hopen : (t.openPipe other fds : Outcome ε FileTable) = .ok t') : t'.Ends pipe (∅, ∅) := by
  unfold FileTable.openPipe at hopen
  split at hopen
  · cases hopen
    refine ⟨?_, ?_⟩
    · simp [descriptors_set, h.1, hne]
    · simp [descriptors_set, h.2, hne]
  · cases hopen

/-- No descriptor is for both ends. -/
theorem Ends.ne {fds : Int × Int} (h : t.Ends pipe ends) (hread : fds.1 ∈ ends.1)
    (hwrite : fds.2 ∈ ends.2) : fds.1 ≠ fds.2 := by
  intro heq
  have hfirst := mem_descriptors.mp (h.1 ▸ hread)
  have hsecond := mem_descriptors.mp (h.2 ▸ hwrite)
  rw [← heq, hfirst] at hsecond
  cases hsecond

end FileTable

/-- A pipe: the bytes that were written and not yet read. -/
structure Pipe (β : Type*) where
  capacity : Nat
  content : List β
  deriving DecidableEq, Repr

namespace Pipe

variable {ε β : Type*} (p : Pipe β)

/-- Write `bytes` at once, if there is room; `none` when nobody has the read end open. -/
def write (readers : Prop) [Decidable readers] (bytes : List β) : Outcome ε (Option (Pipe β)) :=
  if readers then
    if bytes ≠ [] ∧ p.content.length + bytes.length ≤ p.capacity then
      .ok (some { p with content := p.content ++ bytes })
    else .stuck
  else .ok none

/-- Read at most `n` bytes, and none at the end of the stream: the pipe is empty, and nobody has
    the write end open. -/
def read (writers : Prop) [Decidable writers] (n : Nat) : Outcome ε (List β × Pipe β) :=
  if n = 0 then .stuck
  else if p.content = [] then if writers then .stuck else .ok ([], p)
  else .ok (p.content.take n, { p with content := p.content.drop n })

variable {p} {readers writers : Prop} [Decidable readers] [Decidable writers] {bytes : List β}
  {n : Nat}

/-- A write breaks the pipe, or finds room and readers. -/
theorem write_eq_ok {r : Option (Pipe β)}
    (h : (p.write readers bytes : Outcome ε (Option (Pipe β))) = .ok r) :
    (¬ readers ∧ r = none) ∨ (readers ∧ bytes ≠ [] ∧
      p.content.length + bytes.length ≤ p.capacity ∧
      r = some { p with content := p.content ++ bytes }) := by
  unfold write at h
  split at h
  · split at h
    · rename_i hreaders hroom
      cases h
      exact .inr ⟨hreaders, hroom.1, hroom.2, rfl⟩
    · cases h
  · rename_i hreaders
    cases h
    exact .inl ⟨hreaders, rfl⟩

/-- With readers and enough room a write adds its bytes. -/
theorem write_of_room (hreaders : readers) (hbytes : bytes ≠ [])
    (hroom : p.content.length + bytes.length ≤ p.capacity) :
    (p.write readers bytes : Outcome ε (Option (Pipe β))) =
      .ok (some { p with content := p.content ++ bytes }) := by
  rw [write, if_pos hreaders, if_pos ⟨hbytes, hroom⟩]

/-- A `read` finds the end of the stream, or takes bytes from the front. -/
theorem read_eq_ok {p' : Pipe β} (h : (p.read writers n : Outcome ε (List β × Pipe β)) =
    .ok (bytes, p')) :
    (bytes = [] ∧ p.content = [] ∧ ¬ writers ∧ p' = p) ∨
      (bytes ≠ [] ∧ bytes.length ≤ n ∧ p.content = bytes ++ p'.content ∧
        p'.capacity = p.capacity) := by
  unfold read at h
  split at h
  · cases h
  rename_i hn
  split at h
  · rename_i hcontent
    split at h
    · cases h
    · rename_i hwriters
      cases h
      exact .inl ⟨rfl, hcontent, hwriters, rfl⟩
  · rename_i hcontent
    cases h
    refine .inr ⟨?_, List.length_take_le _ _, (List.take_append_drop n p.content).symm, rfl⟩
    rw [ne_eq, List.take_eq_nil_iff]
    exact fun h => h.elim hn hcontent

/-- A reader waits only while the pipe is empty and somebody may write to it. -/
theorem read_ne_stuck (hn : n ≠ 0) (h : p.content ≠ [] ∨ ¬ writers) :
    (p.read writers n : Outcome ε (List β × Pipe β)) ≠ .stuck := by
  unfold read
  rw [if_neg hn]
  split
  · rename_i hcontent
    rw [if_neg (h.resolve_left fun hne => hne hcontent)]
    simp
  · simp

/-- A writer of one byte waits only while the pipe is full and somebody may read from it. -/
theorem write_ne_stuck {b : β} (h : p.content.length < p.capacity ∨ ¬ readers) :
    (p.write readers [b] : Outcome ε (Option (Pipe β))) ≠ .stuck := by
  unfold write
  split
  · rename_i hreaders
    have hroom : p.content.length < p.capacity := h.resolve_right (not_not_intro hreaders)
    rw [if_pos ⟨List.cons_ne_nil b [], hroom⟩]
    simp
  · simp

end Pipe

end OsWet
