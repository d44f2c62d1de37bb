/-
# Snippets.Proofs.FileTree.Descent — a path continued below a directory

A path that leads to a directory, continued by the names of what lies below that directory, leads to
what lies there (`stat_joinAll`). The links met on the way to the directory are met again, and behind
it there is none up to the last name; a slash at the end of the first path, or of the target of a
link, counts no longer when names follow. A path ends at a node of the tree, so what it leads to in a
well-formed tree is well formed.
-/
import Snippets.Proofs.FileTree.Follow

namespace Snippets.FileTree

variable {t : FileTree} {d : Directory} {loc here more : List Name} {node : Node}

/-- How a path without a slash at its end is looked at. -/
def plainly : Manner := { purpose := .inspect, slashed := false }

/-! ## Down from a directory -/

theorem get?_append (t : FileTree) (location names : List Name) :
    t.get? (location ++ names) = (t.get? location).bind fun inner => inner.below? names := by
  rw [get?_eq_below?, get?_eq_below?, Node.below?_append]

/-- Names of entries lead down to what lies there, and no link is followed. -/
theorem follows_below (links : Nat) {start : Node} {names : List Name}
    (hstart : t.get? here = some start) (hnames : ∀ name ∈ names, name.IsEntry)
    (hbelow : start.below? names = some node) (hlink : ∀ target, node ≠ .link target) :
    Follows t links plainly here names { location := here ++ names, node? := some node } := by
  induction names generalizing here start with
  | nil =>
    rw [List.append_nil, ← hbelow, Node.below?_nil, ← hstart]
    exact .done
  | cons name names ih =>
    obtain ⟨hname, hrest⟩ := List.forall_mem_cons.mp hnames
    have hadmits := Manner.admits_of_inspect (show plainly.purpose = .inspect from rfl) names
    cases start with
    | file content => exact absurd hbelow (by simp [Node.below?])
    | link target => exact absurd hbelow (by simp [Node.below?])
    | dir entries =>
      obtain ⟨next, hlookup, hnext⟩ := Option.bind_eq_some_iff.mp hbelow
      have hthere : t.get? (here ++ [name]) = some next := by
        rw [get?_append, hstart]
        simp [hlookup]
      cases next with
      | dir inner =>
        rw [List.append_cons]
        exact .dir hname.isPlain hadmits hthere (ih hthere hrest hnext)
      | file content =>
        cases names with
        | nil =>
          obtain rfl := Option.some.inj ((Node.below?_nil _).symm.trans hnext)
          exact .file hname.isPlain rfl hthere
        | cons _ _ => exact absurd hnext (by simp [Node.below?])
      | link target =>
        cases names with
        | nil =>
          obtain rfl := Option.some.inj ((Node.below?_nil _).symm.trans hnext)
          exact absurd rfl (hlink target)
        | cons _ _ => exact absurd hnext (by simp [Node.below?])

/-- The name of a directory leads into it. -/
theorem follows_name (links : Nat) {manner : Manner} {name : Name}
    (hmanner : manner.purpose = .inspect) (hname : name.IsPlain)
    (hdir : t.get? (here ++ [name]) = some (.dir d)) :
    Follows t links manner here [name]
      { location := here ++ [name], node? := some (.dir d) } := by
  have hdone : Follows t links manner (here ++ [name]) []
      { location := here ++ [name], node? := t.get? (here ++ [name]) } := .done
  rw [hdir] at hdone
  exact .dir hname (Manner.admits_of_inspect hmanner []) hdir hdone

/-! ## Arrivals -/

/-- Steps end at a node of the tree. -/
theorem Follows.node?_eq {links : Nat} {manner : Manner} {steps : List Name} {arrival : Arrival}
    (h : Follows t links manner here steps arrival) : arrival.node? = t.get? arrival.location := by
  induction h with
  | done => rfl
  | stay _ ih => exact ih
  | up _ ih => exact ih
  | dir _ _ _ _ ih => exact ih
  | link _ _ _ _ _ ih => exact ih
  | file _ _ hfile => exact hfile.symm
  | free _ _ hfree => exact hfree.symm

/-- A path ends at a node of the tree. -/
theorem node?_of_follow {manner : Manner} {p : Path} {steps : List Name} {arrival : Arrival}
    (h : t.follow manner p steps = .ok arrival) : arrival.node? = t.get? arrival.location := by
  obtain ⟨here, -, hfollows⟩ := follow_eq_ok_iff.mp h
  exact hfollows.node?_eq

/-- Steps lead to what stands at their end. -/
theorem get?_of_follow {manner : Manner} {p : Path} {steps : List Name}
    (h : t.follow manner p steps = .ok { location := loc, node? := some node }) :
    t.get? loc = some node :=
  (node?_of_follow h).symm

/-! ## Steps after the steps to a directory -/

/-- Steps that lead to a directory, with more steps behind them. The manner matters only at the end of
the steps, so it is the one of the whole. -/
theorem Follows.append {links : Nat} {manner manner' : Manner} {steps : List Name}
    {first arrival : Arrival} (h : Follows t links manner here steps first)
    (hfirst : first.node? = some (.dir d)) (hmanner' : manner'.purpose = .inspect) (hne : more ≠ [])
    (hmore : ∀ links, Follows t links manner' first.location more arrival) :
    Follows t links manner' here (steps ++ more) arrival := by
  induction h with
  | done => exact hmore _
  | stay _ ih => exact .stay (ih hfirst hmore)
  | up _ ih => exact .up (ih hfirst hmore)
  | dir hname _ hdir _ ih =>
    exact .dir hname (Manner.admits_of_inspect hmanner' _) hdir (ih hfirst hmore)
  | @link _ _ _ rest _ _ target hname _ hlink htarget _ ih =>
    -- a slash at the end of the target does not count, because steps are left
    have hpast : manner'.past target (rest ++ more) = manner' := by
      have hleft : (rest ++ more).isEmpty = false := by simp [hne]
      rw [Manner.past, hleft, Bool.false_and, Bool.or_false]
    rw [List.cons_append]
    refine .link hname (Manner.admits_of_inspect hmanner' _) hlink htarget ?_
    rw [hpast, ← List.append_assoc]
    exact ih hfirst hmore
  | file => exact absurd hfirst (by simp)
  | free => exact absurd hfirst (by simp)

/-- Steps that lead to a directory, with more steps behind them, from where two paths start. -/
theorem follow_append {manner manner' : Manner} {p p' : Path} {steps : List Name}
    {arrival : Arrival} (hstart : t.start? p' = t.start? p)
    (h : t.follow manner p steps = .ok { location := loc, node? := some (.dir d) })
    (hmanner' : manner'.purpose = .inspect) (hne : more ≠ [])
    (hmore : ∀ links, Follows t links manner' loc more arrival) :
    t.follow manner' p' (steps ++ more) = .ok arrival := by
  obtain ⟨here, hhere, hfollows⟩ := follow_eq_ok_iff.mp h
  exact follow_eq_ok_iff.mpr
    ⟨here, hstart.trans hhere, hfollows.append rfl hmanner' hne hmore⟩

/-! ## Continued paths -/

theorem checkPath_eq_ok_iff {p : Path} :
    checkPath p = .ok () ↔ 0 ∉ p ∧ p ≠ [] ∧ p.length ≤ pathLimit := by
  unfold checkPath
  split
  · simp_all
  · split
    · simp_all
    · split <;> simp_all

theorem resolve_eq_ok_iff {purpose : Purpose} {p : Path} {arrival : Arrival} :
    t.resolve purpose p = .ok arrival ↔ checkPath p = .ok () ∧
      t.follow { purpose, slashed := p.endsWithSlash } p p.steps = .ok arrival := by
  unfold resolve
  cases checkPath p with
  | error e => simp
  | ok _ =>
    cases t.follow { purpose, slashed := p.endsWithSlash } p p.steps <;> simp [Except.mapError]

theorem stat_eq_ok_iff {p : Path} :
    t.stat p = .ok node ↔
      ∃ location, t.resolve .inspect p = .ok { location, node? := some node } := by
  unfold stat
  cases t.resolve .inspect p with
  | error e => simp
  | ok arrival =>
    obtain ⟨location, node?⟩ := arrival
    cases node? <;> simp

theorem checkPath_of_stat {p : Path} (h : t.stat p = .ok node) : checkPath p = .ok () := by
  obtain ⟨location, hresolve⟩ := stat_eq_ok_iff.mp h
  exact (resolve_eq_ok_iff.mp hresolve).1

/-- A path leads to a node of the tree. -/
theorem exists_get?_of_stat {p : Path} (h : t.stat p = .ok node) :
    ∃ location, t.get? location = some node := by
  obtain ⟨location, hresolve⟩ := stat_eq_ok_iff.mp h
  exact ⟨location, get?_of_follow (resolve_eq_ok_iff.mp hresolve).2⟩

/-- A joined path starts where the path does. -/
theorem start?_joinAll {root : Path} {names : List Name} (hroot : root ≠ [])
    (hnames : ∀ name ∈ names, name.IsEntry) : t.start? (root.joinAll names) = t.start? root := by
  unfold start?
  rw [Path.isAbsolute_joinAll hroot hnames]

/-- A path that leads to a directory, joined with the names of what lies below it. -/
theorem stat_joinAll {root : Path} {top : Node} {names : List Name} (hroot : t.stat root = .ok top)
    (hnames : ∀ name ∈ names, name.IsEntry) (hbelow : top.below? names = some node)
    (hlink : ∀ target, node ≠ .link target) (hlength : (root.joinAll names).length ≤ pathLimit) :
    t.stat (root.joinAll names) = .ok node := by
  rcases List.eq_nil_or_concat' names with rfl | ⟨init, last, rfl⟩
  · obtain rfl := Option.some.inj ((top.below?_nil).symm.trans hbelow)
    exact hroot
  obtain ⟨loc, hresolve⟩ := stat_eq_ok_iff.mp hroot
  obtain ⟨hcheck, hfollow⟩ := resolve_eq_ok_iff.mp hresolve
  obtain ⟨hzero, hne, -⟩ := checkPath_eq_ok_iff.mp hcheck
  -- names follow, so the root is a directory
  cases top with
  | file content => exact absurd hbelow (by cases init <;> simp [Node.below?])
  | link target => exact absurd hbelow (by cases init <;> simp [Node.below?])
  | dir entries =>
    have hlast : last.IsEntry := hnames last (by simp)
    have hslash : Path.endsWithSlash (root.joinAll (init ++ [last])) = false := by
      rw [Path.joinAll_concat]
      exact Path.endsWithSlash_join _ hlast.ne_nil hlast.slash_notMem
    refine stat_eq_ok_iff.mpr ⟨loc ++ (init ++ [last]),
      resolve_eq_ok_iff.mpr ⟨checkPath_eq_ok_iff.mpr ⟨?_, ?_, hlength⟩, ?_⟩⟩
    · exact Path.zero_notMem_joinAll hzero hnames
    · rw [Path.joinAll_concat]
      exact Path.join_ne_nil _ hlast.ne_nil
    · rw [hslash, Path.steps_joinAll root hnames]
      exact follow_append (start?_joinAll hne hnames) hfollow rfl (by simp)
        fun links => follows_below links (get?_of_follow hfollow) hnames hbelow hlink

theorem WellFormed.stat {p : Path} (ht : t.WellFormed) (h : t.stat p = .ok node) :
    node.WellFormed := by
  obtain ⟨location, hget⟩ := exists_get?_of_stat h
  rw [get?_eq_below?] at hget
  exact (Node.WellFormed.descend ht hget).1

end Snippets.FileTree
