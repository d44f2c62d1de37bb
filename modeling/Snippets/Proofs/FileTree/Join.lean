/-
# Snippets.Proofs.FileTree.Join — joining names onto a path

Joining names of entries onto a path adds exactly these names to its steps, and the last of them is
the file name. The names hold no slash, so no step is cut in two.
-/
import Snippets.Proofs.FileTree.Node
import Snippets.Proofs.Text.Words

namespace Snippets.Path

/-! ## Steps -/

/-- The steps on both sides of a slash. -/
theorem steps_append_slash (front back : Path) :
    steps (front ++ slash :: back) = steps front ++ steps back := by
  rw [steps, List.splitOn_append_cons_self, List.filter_append]
  rfl

@[simp] theorem steps_nil : steps [] = [] := rfl

/-- A step is a name between slashes, made of bytes of the path. -/
theorem of_mem_steps {p : Path} {name : Name} (h : name ∈ steps p) :
    name ≠ [] ∧ slash ∉ name ∧ ∀ b ∈ name, b ∈ p := by
  obtain ⟨hpiece, hne⟩ := List.mem_filter.mp h
  rw [List.splitOn_eq_splitOnP] at hpiece
  refine ⟨by simpa using hne, ?_, ?_⟩
  · intro hslash
    obtain ⟨-, hnot⟩ := Text.of_mem_splitOnP hpiece hslash
    exact absurd hnot (by decide)
  · intro b hb
    exact (Text.of_mem_splitOnP hpiece hb).1

/-- Slashes at the end add no step. -/
theorem steps_append_slashes (p : Path) (count : Nat) :
    steps (p ++ List.replicate count slash) = steps p := by
  induction count with
  | zero => simp
  | succ count ih =>
    rw [List.replicate_succ', ← List.append_assoc, steps_append_slash, ih, steps_nil,
      List.append_nil]

/-- A name without a slash is one step. -/
theorem steps_name {name : Name} (hne : name ≠ []) (hslash : slash ∉ name) :
    steps name = [name] := by
  rw [steps, List.splitOn_eq_singleton hslash]
  simpa using hne

theorem steps_join (base : Path) {name : Name} (hne : name ≠ []) (hslash : slash ∉ name) :
    steps (base.join name) = steps base ++ [name] := by
  rw [← steps_name hne hslash]
  unfold join
  split
  · rename_i h
    rcases Bool.or_eq_true_iff.mp h with hempty | hend
    · rw [List.isEmpty_iff.mp hempty]
      rfl
    · have hlast : base.getLast? = some slash := by simpa [endsWithSlash] using hend
      -- the slash at the end of the base is the one between its steps and the name
      obtain ⟨front, rfl⟩ := List.getLast?_eq_some_iff.mp hlast
      rw [List.append_assoc, List.singleton_append, steps_append_slash, steps_append_slash,
        steps_nil, List.append_nil]
  · exact steps_append_slash base name

theorem steps_joinAll (base : Path) {names : List Name} (h : ∀ name ∈ names, name.IsEntry) :
    steps (base.joinAll names) = steps base ++ names := by
  induction names generalizing base with
  | nil => simp
  | cons name names ih =>
    obtain ⟨hname, hnames⟩ := List.forall_mem_cons.mp h
    rw [joinAll_cons, ih _ hnames, steps_join base hname.ne_nil hname.slash_notMem,
      List.append_assoc, List.singleton_append]

/-! ## The bytes of a joined path -/

theorem joinAll_append (base : Path) (names more : List Name) :
    base.joinAll (names ++ more) = (base.joinAll names).joinAll more :=
  List.foldl_append

theorem joinAll_concat (base : Path) (names : List Name) (name : Name) :
    base.joinAll (names ++ [name]) = (base.joinAll names).join name :=
  joinAll_append base names [name]

/-- A joined path ends with the name joined. -/
theorem exists_append_eq_join (base : Path) (name : Name) :
    ∃ front, front ++ name = base.join name := by
  unfold join
  split
  · exact ⟨base, rfl⟩
  · exact ⟨base ++ [slash], by simp⟩

theorem join_ne_nil (base : Path) {name : Name} (h : name ≠ []) : base.join name ≠ [] := by
  obtain ⟨front, hfront⟩ := exists_append_eq_join base name
  rw [← hfront]
  exact List.append_ne_nil_of_right_ne_nil front h

theorem length_lt_join (base : Path) {name : Name} (h : name ≠ []) :
    base.length < (base.join name).length := by
  have hpos := List.length_pos_of_ne_nil h
  unfold join
  split
  · rw [List.length_append]
    omega
  · rw [List.length_append, List.length_cons]
    omega

theorem endsWithSlash_join (base : Path) {name : Name} (hne : name ≠ []) (hslash : slash ∉ name) :
    endsWithSlash (base.join name) = false := by
  obtain ⟨front, hfront⟩ := exists_append_eq_join base name
  have hlast : slash ∉ name.getLast? := by
    intro h
    exact hslash (List.mem_of_mem_getLast? h)
  rw [← hfront, endsWithSlash, List.getLast?_append_of_ne_nil front hne]
  simpa using hlast

/-- Joining names does not make a path absolute, or relative. -/
theorem isAbsolute_join {base : Path} (h : base ≠ []) (name : Name) :
    (base.join name).isAbsolute = base.isAbsolute := by
  obtain ⟨b, rest, rfl⟩ := List.exists_cons_of_ne_nil h
  unfold join
  split <;> rfl

theorem isAbsolute_joinAll {base : Path} (h : base ≠ []) {names : List Name}
    (hnames : ∀ name ∈ names, name.IsEntry) :
    (base.joinAll names).isAbsolute = base.isAbsolute := by
  induction names generalizing base with
  | nil => rfl
  | cons name names ih =>
    obtain ⟨hname, hrest⟩ := List.forall_mem_cons.mp hnames
    rw [joinAll_cons, ih (join_ne_nil base hname.ne_nil) hrest, isAbsolute_join h]

theorem mem_join {base : Path} {name : Name} {b : UInt8} (h : b ∈ base.join name) :
    b ∈ base ∨ b = slash ∨ b ∈ name := by
  unfold join at h
  split at h
  · exact (List.mem_append.mp h).imp_right .inr
  · simpa using h

/-- No byte zero comes in by joining. -/
theorem zero_notMem_joinAll {base : Path} {names : List Name} (hbase : 0 ∉ base)
    (h : ∀ name ∈ names, name.IsEntry) : 0 ∉ base.joinAll names := by
  induction names generalizing base with
  | nil => exact hbase
  | cons name names ih =>
    obtain ⟨hname, hnames⟩ := List.forall_mem_cons.mp h
    rw [joinAll_cons]
    apply ih _ hnames
    intro hmem
    rcases mem_join hmem with hmem | hmem | hmem
    · exact hbase hmem
    · exact absurd hmem (by decide)
    · exact hname.zero_notMem hmem

/-! ## The file name -/

theorem getLast?_parts_of_steps {p : Path} {front : List Name} {name : Name}
    (h : steps p = front ++ [name]) (hname : name ≠ here) : (parts p).getLast? = some name := by
  unfold parts
  rw [h]
  cases front with
  | nil => simp [hname]
  | cons first rest =>
    have hlast : ((rest ++ [name]).filter (· ≠ here)).getLast? = some name := by
      simp [List.filter_append, hname]
    simp only [List.cons_append]
    split
    · exact hlast
    · rw [List.getLast?_cons, hlast]
      rfl

/-- The file name is the last step, unless that stays or goes up. -/
theorem fileName?_of_steps {p : Path} {front : List Name} {name : Name}
    (h : steps p = front ++ [name]) (hhere : name ≠ here) (hup : name ≠ up) :
    fileName? p = some name := by
  rw [fileName?, getLast?_parts_of_steps h hhere, Option.filter_some]
  simp [hhere, hup]

/-- The file name is the name joined last. -/
theorem fileName?_join (base : Path) {name : Name} (h : name.IsEntry) :
    fileName? (base.join name) = some name :=
  fileName?_of_steps (steps_join base h.ne_nil h.slash_notMem) h.ne_here h.ne_up

end Snippets.Path
