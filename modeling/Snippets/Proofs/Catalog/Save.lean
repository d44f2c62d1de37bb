/-
# Snippets.Proofs.Catalog.Save — what a save leaves behind

A save that fails has changed no file: at most directories on the way to the export have been made,
and nothing is reported (`save_error`). A save that succeeds leaves the composed text in the file, to
be read under the same path (`save_ok`), and can be repeated on the tree that it leaves
(`save_again`).
-/
import Snippets.Catalog.Save
import Snippets.Proofs.FileTree.Effect

namespace Snippets

/-- The directories on the way to a path: the one that holds its last name, and those above. -/
def Path.directories (p : Path) : List Path := (p.parent?.map Path.ancestors).getD []

namespace Catalog

variable {c : Catalog} {generatedAt : Text} {path : Path} {t : FileTree}

/-- Preparing the directory adds directories only, also when it fails. -/
theorem gainsDirectories_prepareDirectory (t : FileTree) (path : Path) :
    FileTree.GainsDirectories path.directories t (prepareDirectory t path).1 := by
  unfold prepareDirectory Path.directories
  cases path.parent? with
  | none => exact .refl _ t
  | some parent =>
    dsimp only
    split
    · exact .refl _ t
    · exact FileTree.gainsDirectories_makeDirs t parent

/-- The four ends of a save: without a directory, without a text, without a file, or complete. -/
theorem save_cases (c : Catalog) (generatedAt : Text) (path : Path) (t : FileTree) :
    (∃ e, (prepareDirectory t path).2 = .error e ∧
      c.save generatedAt path t =
        { tree := (prepareDirectory t path).1, events := [], result := .error (.io e) }) ∨
    ((prepareDirectory t path).2 = .ok () ∧ c.exportFile? generatedAt = none ∧
      c.save generatedAt path t =
        { tree := (prepareDirectory t path).1, events := [], result := .error .sourceNotText }) ∨
    (∃ text e, (prepareDirectory t path).2 = .ok () ∧ c.exportFile? generatedAt = some text ∧
      (prepareDirectory t path).1.writeFile path (Utf8.encode text) = .error e ∧
      c.save generatedAt path t =
        { tree := (prepareDirectory t path).1, events := [], result := .error (.io e) }) ∨
    ∃ text written, (prepareDirectory t path).2 = .ok () ∧
      c.exportFile? generatedAt = some text ∧
      (prepareDirectory t path).1.writeFile path (Utf8.encode text) = .ok written ∧
      c.save generatedAt path t =
        { tree := written, events := [.saved path c.size], result := .ok () } := by
  unfold save
  obtain ⟨prepared, e | ⟨⟩⟩ := prepareDirectory t path
  · exact .inl ⟨e, rfl, rfl⟩
  · cases c.exportFile? generatedAt with
    | none => exact .inr (.inl ⟨rfl, rfl, rfl⟩)
    | some text =>
      cases hwrite : prepared.writeFile path (Utf8.encode text) with
      | error e => exact .inr (.inr (.inl ⟨text, e, rfl, rfl, hwrite, by simp only [hwrite]⟩))
      | ok written =>
        exact .inr (.inr (.inr ⟨text, written, rfl, rfl, hwrite, by simp only [hwrite]⟩))

/-- A save that fails has made directories at most, and reports nothing. -/
theorem save_error {e : Failure} (h : (c.save generatedAt path t).result = .error e) :
    FileTree.GainsDirectories path.directories t (c.save generatedAt path t).tree ∧
      (c.save generatedAt path t).events = [] ∧
      ((∃ cause, e = .io cause) ∨ e = .sourceNotText ∧ c.exportFile? generatedAt = none) := by
  have hgains := gainsDirectories_prepareDirectory t path
  rcases save_cases c generatedAt path t with
    ⟨cause, -, hsave⟩ | ⟨-, hnone, hsave⟩ | ⟨text, cause, -, -, -, hsave⟩ |
      ⟨text, written, -, -, -, hsave⟩
  · rw [hsave] at h ⊢
    exact ⟨hgains, rfl, .inl ⟨cause, (Except.error.inj h).symm⟩⟩
  · rw [hsave] at h ⊢
    exact ⟨hgains, rfl, .inr ⟨(Except.error.inj h).symm, hnone⟩⟩
  · rw [hsave] at h ⊢
    exact ⟨hgains, rfl, .inl ⟨cause, (Except.error.inj h).symm⟩⟩
  · rw [hsave] at h
    exact absurd h (by simp)

/-- A save that succeeds leaves the export in the file. -/
theorem save_ok (h : (c.save generatedAt path t).result = .ok ()) :
    ∃ text, c.exportFile? generatedAt = some text ∧
      (c.save generatedAt path t).tree.read path = .ok (Utf8.encode text) := by
  rcases save_cases c generatedAt path t with
    ⟨cause, -, hsave⟩ | ⟨-, -, hsave⟩ | ⟨text, cause, -, -, -, hsave⟩ |
      ⟨text, written, -, htext, hwrite, hsave⟩
  · exact absurd h (by simp [hsave])
  · exact absurd h (by simp [hsave])
  · exact absurd h (by simp [hsave])
  · refine ⟨text, htext, ?_⟩
    rw [hsave]
    exact FileTree.read_of_writeFile hwrite

/-- Without a text to write, a save fails before it opens the file. -/
theorem save_of_exportFile?_eq_none (hdirectory : (prepareDirectory t path).2 = .ok ())
    (h : c.exportFile? generatedAt = none) :
    (c.save generatedAt path t).result = .error .sourceNotText := by
  rcases save_cases c generatedAt path t with
    ⟨cause, hcause, -⟩ | ⟨-, -, hsave⟩ | ⟨text, cause, -, htext, -⟩ | ⟨text, written, -, htext, -⟩
  · exact absurd (hcause.symm.trans hdirectory) (by simp)
  · rw [hsave]
  · exact absurd (htext.symm.trans h) (by simp)
  · exact absurd (htext.symm.trans h) (by simp)

/-! ## Saving again -/

/-- The directory of a path is reached when it has been prepared. -/
theorem reaches_prepareDirectory {parent : Path} (hparent : path.parent? = some parent)
    (hne : parent ≠ []) (h : (prepareDirectory t path).2 = .ok ()) :
    (prepareDirectory t path).1.reaches parent = true := by
  unfold prepareDirectory at h ⊢
  rw [hparent] at h ⊢
  dsimp only at h ⊢
  split at h
  · rename_i hready
    rw [if_pos hready]
    exact (Bool.or_eq_true_iff.mp hready).resolve_left (by simpa using hne)
  · rename_i hmissing
    rw [if_neg hmissing]
    exact FileTree.reaches_of_makeDirs hne (Prod.ext rfl h)

/-- A directory that has been prepared needs no preparation later. -/
theorem prepareDirectory_again {t' : FileTree} (h : (prepareDirectory t path).2 = .ok ())
    (hkeeps : (prepareDirectory t path).1.Keeps t') : prepareDirectory t' path = (t', .ok ()) := by
  cases hparent : path.parent? with
  | none =>
    unfold prepareDirectory
    rw [hparent]
  | some parent =>
    have hready : (parent.isEmpty || t'.reaches parent) = true := by
      by_cases hne : parent = []
      · rw [hne]
        rfl
      · rw [FileTree.reaches_of_keeps hkeeps (reaches_prepareDirectory hparent hne h), Bool.or_true]
    unfold prepareDirectory
    rw [hparent]
    exact if_pos hready

/-- Whether there is a text to write does not depend on the time written into it. -/
theorem exists_exportFile?_later {text : Text} (h : c.exportFile? generatedAt = some text)
    (later : Text) : ∃ text, c.exportFile? later = some text := by
  obtain ⟨groups, hgroups, -⟩ := Option.map_eq_some_iff.mp h
  exact ⟨_, Option.map_eq_some_iff.mpr ⟨groups, hgroups, rfl⟩⟩

/-- **What was saved once can be saved again**, over the file and at another time. -/
theorem save_again (h : (c.save generatedAt path t).result = .ok ()) (later : Text) :
    (c.save later path (c.save generatedAt path t).tree).result = .ok () := by
  rcases save_cases c generatedAt path t with
    ⟨cause, -, hsave⟩ | ⟨-, -, hsave⟩ | ⟨text, cause, -, -, -, hsave⟩ |
      ⟨text, written, hready, htext, hwrite, hsave⟩
  · exact absurd h (by simp [hsave])
  · exact absurd h (by simp [hsave])
  · exact absurd h (by simp [hsave])
  · obtain ⟨text', htext'⟩ := exists_exportFile?_later htext later
    obtain ⟨again, hagain⟩ := FileTree.exists_writeFile_again hwrite (Utf8.encode text')
    have hready' : prepareDirectory written path = (written, .ok ()) :=
      prepareDirectory_again hready (FileTree.keeps_of_writeFile hwrite)
    rw [hsave, save, hready', htext']
    simp only [hagain]

end Catalog

end Snippets
