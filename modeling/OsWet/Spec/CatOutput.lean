import OsWet.Spec.DescriptorConservation
import Mathlib.Data.List.TakeWhile

/-!
# What `cat` writes

Each chunk that is read gets a NUL character after its last byte and is written as a C
string, so what follows a NUL character inside the chunk is lost. How a file is split into
chunks decides how much is lost, but not whether something is.

## Main result

- `cat_faithful_iff`: the output is the files one after the other exactly when none of
  them holds a NUL character
-/

namespace OsWet

open Text

/-- Cutting each part of a list does not make the whole longer. -/
theorem length_flatMap_takeWhile_le {α : Type*} (p : α → Bool) (parts : List (List α)) :
    (parts.flatMap (List.takeWhile p)).length ≤ parts.flatten.length := by
  induction parts with
  | nil => exact Nat.le_refl 0
  | cons part parts ih =>
    have hpart := (List.takeWhile_sublist p (l := part)).length_le
    simp only [List.flatMap_cons, List.flatten_cons, List.length_append]
    omega

/-- Cutting each part of a list leaves the whole list exactly when nothing is cut. -/
theorem flatMap_takeWhile_eq_iff {α : Type*} {p : α → Bool} (parts : List (List α)) :
    parts.flatMap (List.takeWhile p) = parts.flatten ↔ ∀ a ∈ parts.flatten, p a := by
  induction parts with
  | nil => simp
  | cons part parts ih =>
    rw [List.flatMap_cons, List.flatten_cons, List.forall_mem_append, ← ih]
    constructor
    · intro h
      -- No part gets longer, so each of the two has kept its length.
      have hlen := congrArg List.length h
      have hpart := (List.takeWhile_sublist p (l := part)).length_le
      have hparts := length_flatMap_takeWhile_le p parts
      rw [List.length_append, List.length_append] at hlen
      obtain ⟨hfirst, hothers⟩ := List.append_inj h (by omega)
      exact ⟨List.takeWhile_eq_self_iff.mp hfirst, hothers⟩
    · intro h
      rw [List.takeWhile_eq_self_iff.mpr h.1, h.2]

/-- What a command writes to standard output. -/
def standardOutput (out : List Output) : Text :=
  out.flatMap fun
    | .cout s => s
    | .cerr _ => []
    | .perror _ => []

namespace CatCommand

/-- A file that is opened as `fd` and read to its end in these chunks. -/
structure ReadableFile where
  fd : Int
  chunks : List Text
  valid : ∀ chunk ∈ chunks, 1 ≤ chunk.length ∧ chunk.length ≤ DEFAULT_BLOCK_SIZE

namespace ReadableFile

/-- What is in the file. -/
def contents (file : ReadableFile) : Text := file.chunks.flatten

/-- After the last chunk `read` returns 0. -/
def answer (file : ReadableFile) : FileAnswer :=
  .opened file.fd (file.chunks.map some ++ [some []])

/-- What `printFile` writes for the file. -/
def output (file : ReadableFile) : List Output :=
  file.chunks.map (fun chunk => Output.cout (upToNul chunk)) ++ [.cout []]

end ReadableFile

/-- The loop gets to the end of the file whatever the chunks are. -/
theorem readLoop_chunks (t : Descriptors) (fd : Int) {chunks : List Text}
    (hvalid : ∀ chunk ∈ chunks, 1 ≤ chunk.length ∧ chunk.length ≤ DEFAULT_BLOCK_SIZE) :
    readLoop t fd (chunks.map some ++ [some []]) =
      .ok (t.close fd, chunks.map (fun chunk => Output.cout (upToNul chunk)) ++ [.cout []]) := by
  induction chunks with
  | nil => rfl
  | cons chunk chunks ih =>
    obtain ⟨hpos, hle⟩ := hvalid chunk List.mem_cons_self
    have hrest := ih fun c hc => hvalid c (List.mem_cons_of_mem _ hc)
    rw [List.map_cons, List.cons_append, readLoop, if_neg (by omega), if_pos (by omega), hrest]
    rfl

/-- Printing a file that can be read leaves the table as it was. -/
theorem printFile_readable {t : Descriptors} {file : ReadableFile} (hfree : t.Free file.fd) :
    ∃ t', printFile t file.answer = .ok (t', file.output) ∧ ∀ fd, t'.file fd = t.file fd := by
  refine ⟨(t.create file.fd hfree.1).close file.fd, ?_, Descriptors.close_create_file hfree⟩
  have hopen : (t.openAt file.fd : Outcome Empty Descriptors) = .ok (t.create file.fd hfree.1) :=
    Descriptors.openAt_eq_ok.mpr ⟨hfree, rfl⟩
  rw [ReadableFile.answer, printFile, hopen]
  exact readLoop_chunks _ _ file.valid

/-- Each file is closed before the next one is opened, so all of them can be. -/
theorem printFiles_readable {t : Descriptors} {filenames : List Text} {files : List ReadableFile}
    (hlen : files.length = filenames.length) (hfree : ∀ file ∈ files, t.Free file.fd) :
    ∃ t', printFiles t filenames (files.map ReadableFile.answer) =
      .ok (t', files.flatMap ReadableFile.output) := by
  -- By induction on the files; the descriptor of each is free again for the next.
  induction files generalizing t filenames with
  | nil =>
    rw [List.length_eq_zero_iff.mp hlen.symm]
    exact ⟨t, rfl⟩
  | cons file files ih =>
    cases filenames with
    | nil => cases hlen
    | cons filename filenames =>
      obtain ⟨t₁, h₁, hsame⟩ := printFile_readable (hfree file List.mem_cons_self)
      -- The first file was closed, so the table is as before.
      have hfree₁ : ∀ file ∈ files, t₁.Free file.fd := by
        intro file hfile
        have h := hfree file (List.mem_cons_of_mem _ hfile)
        rw [Descriptors.Free, Descriptors.Open] at h ⊢
        rw [hsame]
        exact h
      obtain ⟨t₂, h₂⟩ := ih (by simpa using hlen) hfree₁
      refine ⟨t₂, ?_⟩
      rw [List.map_cons, printFiles, h₁, Outcome.ok_bind]
      dsimp only
      rw [h₂]
      rfl

/-- The output of the files is each of their chunks up to a NUL character. -/
theorem standardOutput_output (files : List ReadableFile) :
    standardOutput (files.flatMap ReadableFile.output) =
      (files.flatMap ReadableFile.chunks).flatMap upToNul := by
  rw [standardOutput, List.flatMap_assoc, List.flatMap_assoc]
  congr 1
  funext file
  simp [ReadableFile.output, List.flatMap_append, List.flatMap_map]

/-- `cat` on readable files writes their contents exactly when no file holds a NUL
    character, however the files are read. -/
theorem cat_faithful_iff (t : Descriptors) (args : List Text) (files : List ReadableFile)
    (answers : Answers) (hlen : files.length = args.length)
    (hfiles : answers.files = files.map ReadableFile.answer)
    (hfree : ∀ file ∈ files, t.Free file.fd) :
    ∃ t' out, execute t args answers = .ok (t', out) ∧
      (standardOutput out = files.flatMap ReadableFile.contents ↔
        ∀ file ∈ files, '\x00' ∉ file.contents) := by
  have hcontents : files.flatMap ReadableFile.contents =
      (files.flatMap ReadableFile.chunks).flatten := by
    rw [List.flatMap, List.flatMap, List.flatten_flatten, List.map_map]
    rfl
  obtain ⟨t', hprint⟩ := printFiles_readable hlen hfree
  by_cases hargs : args = []
  · -- Without arguments there are no files, and nothing goes to standard output.
    subst hargs
    obtain rfl := List.length_eq_zero_iff.mp hlen
    refine ⟨t, _, by rw [execute, if_pos rfl], ?_⟩
    simp [standardOutput]
  · -- What is written is each chunk up to its first NUL.
    refine ⟨t', _, by rw [execute, if_neg hargs, hfiles, hprint], ?_⟩
    rw [standardOutput_output, hcontents]
    refine (flatMap_takeWhile_eq_iff _).trans ?_
    rw [← hcontents]
    -- All of it is written if no chunk has a NUL.
    constructor
    · intro h file hfile hnul
      exact of_decide_eq_true (h _ (List.mem_flatMap.mpr ⟨file, hfile, hnul⟩)) rfl
    · intro h a ha
      obtain ⟨file, hfile, hmem⟩ := List.mem_flatMap.mp ha
      apply decide_eq_true
      intro heq
      subst heq
      exact h file hfile hmem

/-- A file with the bytes `a`, NUL and `b`, read in one chunk. -/
def nulFile : ReadableFile where
  fd := 3
  chunks := [['a', '\x00', 'b']]
  valid := by decide

/-- A text file that is read in two chunks. -/
def textFile : ReadableFile where
  fd := 3
  chunks := [text "ab", text "c"]
  valid := by decide

/-- A text file is written whole. -/
theorem cat_faithful_text :
    ∃ t' out, execute SmallShell.standardDescriptors [text "f"]
        { SmallShell.lowestAnswers with files := [textFile.answer] } = .ok (t', out) ∧
      standardOutput out = text "abc" := by
  obtain ⟨t', out, h, hiff⟩ := cat_faithful_iff SmallShell.standardDescriptors [text "f"]
    [textFile] { SmallShell.lowestAnswers with files := [textFile.answer] } rfl rfl (by decide)
  exact ⟨t', out, h, hiff.mpr (by decide)⟩

/-- What follows the NUL character is not written, and nothing is reported. -/
theorem cat_drops_after_nul :
    ∃ t', execute SmallShell.standardDescriptors [text "f"]
        { SmallShell.lowestAnswers with files := [nulFile.answer] } =
          .ok (t', [.cout (text "a"), .cout []]) ∧
      standardOutput [.cout (text "a"), .cout []] ≠ nulFile.contents :=
  ⟨_, rfl, by decide⟩

end CatCommand

end OsWet
