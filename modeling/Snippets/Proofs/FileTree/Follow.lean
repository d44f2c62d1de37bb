/-
# Snippets.Proofs.FileTree.Follow — following a path, case by case

`Follows` tells what following steps can do, a rule for each way to take a step: to stay, to go up, to
go down into a directory, to continue with the target of a link, and to end at a file or at a free
name. Following succeeds exactly by these rules (`follow_eq_ok_iff`), so what holds of every path that
can be followed goes by induction on them, steps and links in one.
-/
import Snippets.Proofs.FileTree.Join

namespace Snippets

/-- A name that is looked up in a directory. -/
structure Name.IsPlain (name : Name) : Prop where
  /-- It is not the directory itself. -/
  ne_here : name ≠ Path.here
  /-- It is not the directory above. -/
  ne_up : name ≠ Path.up
  /-- It is not too long. -/
  length_le : name.length ≤ FileTree.nameLimit

theorem Name.IsEntry.isPlain {name : Name} (h : name.IsEntry) : name.IsPlain :=
  ⟨h.ne_here, h.ne_up, h.length_le⟩

namespace FileTree

/-- Whether a name is looked up with some steps behind it: the last name is not, when a file is to be
written and the path ends with a slash. -/
def Manner.Admits (manner : Manner) (rest : List Name) : Prop :=
  ¬ (rest.isEmpty ∧ manner = { purpose := .write, slashed := true })

theorem Manner.admits_of_inspect {manner : Manner} (h : manner.purpose = .inspect) (rest : List Name) :
    manner.Admits rest := by
  rintro ⟨-, rfl⟩
  exact absurd h (by decide)

theorem Manner.admits_of_not_slashed {manner : Manner} (h : manner.slashed = false) (rest : List Name) :
    manner.Admits rest := by
  rintro ⟨-, rfl⟩
  exact absurd h (by decide)

/-- Following steps from a directory, with a number of links that may still be followed. -/
inductive Follows (t : FileTree) :
    (links : Nat) → Manner → (here steps : List Name) → Arrival → Prop
  /-- No step is left. -/
  | done {links : Nat} {manner : Manner} {here : List Name} :
      Follows t links manner here [] { location := here, node? := t.get? here }
  /-- The directory itself. -/
  | stay {links : Nat} {manner : Manner} {here rest : List Name} {arrival : Arrival}
      (h : Follows t links manner here rest arrival) :
      Follows t links manner here (Path.here :: rest) arrival
  /-- The directory above. -/
  | up {links : Nat} {manner : Manner} {here rest : List Name} {arrival : Arrival}
      (h : Follows t links manner here.dropLast rest arrival) :
      Follows t links manner here (Path.up :: rest) arrival
  /-- A directory below. -/
  | dir {links : Nat} {manner : Manner} {here rest : List Name} {arrival : Arrival} {name : Name}
      {d : Directory} (hname : name.IsPlain) (hadmits : manner.Admits rest)
      (hdir : t.get? (here ++ [name]) = some (.dir d))
      (h : Follows t links manner (here ++ [name]) rest arrival) :
      Follows t links manner here (name :: rest) arrival
  /-- A link: its target is followed from here, and then the steps left. -/
  | link {links : Nat} {manner : Manner} {here rest : List Name} {arrival : Arrival} {name : Name}
      {target : Path} (hname : name.IsPlain) (hadmits : manner.Admits rest)
      (hlink : t.get? (here ++ [name]) = some (.link target)) (htarget : ¬ target.isEmpty)
      (h : Follows t links (manner.past target rest) (if target.isAbsolute then [] else here)
        (target.steps ++ rest) arrival) :
      Follows t (links + 1) manner here (name :: rest) arrival
  /-- A file, at the end. -/
  | file {links : Nat} {manner : Manner} {here : List Name} {name : Name} {content : Bytes}
      (hname : name.IsPlain) (hslashed : manner.slashed = false)
      (hfile : t.get? (here ++ [name]) = some (.file content)) :
      Follows t links manner here [name]
        { location := here ++ [name], node? := some (.file content) }
  /-- A free name, at the end. -/
  | free {links : Nat} {manner : Manner} {here : List Name} {name : Name} (hname : name.IsPlain)
      (hadmits : manner.Admits []) (hfree : t.get? (here ++ [name]) = none) :
      Follows t links manner here [name] { location := here ++ [name], node? := none }

variable {t : FileTree} {links : Nat} {manner : Manner} {here steps : List Name} {arrival : Arrival}

/-- Down the guards of one step: `.`, `..`, a slash when writing, a long name, a look-up. What is
assumed of a link is what following its target gives. -/
theorem follows_of_advance_of_jump
    (hjump : ∀ here name target rest, name.IsPlain → manner.Admits rest →
      t.get? (here ++ [name]) = some (.link target) →
      jump t manner links here target rest = .ok arrival →
      Follows t links manner here (name :: rest) arrival)
    (h : advance t (jump t manner links) manner here steps = .ok arrival) :
    Follows t links manner here steps arrival := by
  induction steps generalizing here with
  | nil =>
    rw [advance] at h
    rw [← Except.ok.inj h]
    exact .done
  | cons step rest ih =>
    rw [advance] at h
    split at h
    · rename_i hhere
      rw [hhere]
      exact .stay (ih h)
    rename_i hhere
    split at h
    · rename_i hup
      rw [hup]
      exact .up (ih h)
    rename_i hup
    split at h
    · exact absurd h (by simp)
    rename_i hadmits
    split at h
    · exact absurd h (by simp)
    rename_i hlength
    have hname : step.IsPlain := ⟨hhere, hup, Nat.not_lt.mp hlength⟩
    split at h
    · rename_i hdir
      exact .dir hname hadmits hdir (ih h)
    · rename_i hlink
      exact hjump here step _ rest hname hadmits hlink h
    · rename_i hfile
      split at h
      · rename_i hlast
        obtain ⟨hrest, hslashed⟩ := Bool.and_eq_true_iff.mp hlast
        obtain rfl := List.isEmpty_iff.mp hrest
        rw [← Except.ok.inj h]
        exact .file hname (by simpa using hslashed) hfile
      · exact absurd h (by simp)
    · rename_i hfree
      split at h
      · rename_i hrest
        obtain rfl := List.isEmpty_iff.mp hrest
        rw [← Except.ok.inj h]
        exact .free hname hadmits hfree
      · exact absurd h (by simp)

theorem follows_of_advance (h : advance t (jump t manner links) manner here steps = .ok arrival) :
    Follows t links manner here steps arrival := by
  -- on the links: the target of one is followed with one link less
  induction links generalizing manner here steps with
  | zero =>
    refine follows_of_advance_of_jump (fun here name target rest _ _ _ hjump => ?_) h
    exact absurd hjump (by simp [jump])
  | succ links ih =>
    refine follows_of_advance_of_jump (fun here name target rest hname hadmits hlink hjump => ?_) h
    rw [jump] at hjump
    split at hjump
    · exact absurd hjump (by simp)
    · rename_i htarget
      exact .link hname hadmits hlink htarget (ih hjump)

theorem Follows.advance_eq (h : Follows t links manner here steps arrival) :
    advance t (jump t manner links) manner here steps = .ok arrival := by
  induction h with
  | done => rw [advance]
  | stay _ ih => rw [advance, if_pos rfl, ih]
  | up _ ih => rw [advance, if_neg (by decide), if_pos rfl, ih]
  | dir hname hadmits hdir _ ih =>
    rw [advance, if_neg hname.ne_here, if_neg hname.ne_up, if_neg hadmits,
      if_neg (Nat.not_lt.mpr hname.length_le), hdir]
    exact ih
  | link hname hadmits hlink htarget _ ih =>
    rw [advance, if_neg hname.ne_here, if_neg hname.ne_up, if_neg hadmits,
      if_neg (Nat.not_lt.mpr hname.length_le), hlink]
    dsimp only
    rw [jump, if_neg htarget]
    exact ih
  | file hname hslashed hfile =>
    rw [advance, if_neg hname.ne_here, if_neg hname.ne_up,
      if_neg (Manner.admits_of_not_slashed hslashed []), if_neg (Nat.not_lt.mpr hname.length_le),
      hfile]
    exact if_pos (by simp [hslashed])
  | free hname hadmits hfree =>
    rw [advance, if_neg hname.ne_here, if_neg hname.ne_up, if_neg hadmits,
      if_neg (Nat.not_lt.mpr hname.length_le), hfree]
    rfl

/-! ## Where a path starts -/

variable {p : Path}

/-- A path starts in a directory. -/
theorem exists_dir_of_start? (h : t.start? p = some here) : ∃ d, t.get? here = some (.dir d) := by
  unfold start? at h
  split at h
  · obtain rfl := Option.some.inj h
    exact ⟨t.top, rfl⟩
  · split at h
    · rename_i d hdir
      obtain rfl := Option.some.inj h
      exact ⟨d, hdir⟩
    · exact absurd h (by simp)

/-- **Steps can be followed exactly by the rules**, from where the path starts. -/
theorem follow_eq_ok_iff :
    t.follow manner p steps = .ok arrival ↔
      ∃ here, t.start? p = some here ∧ Follows t linkLimit manner here steps arrival := by
  unfold follow
  cases t.start? p with
  | none => simp
  | some here => simpa using ⟨follows_of_advance, Follows.advance_eq⟩

end FileTree

end Snippets
