/-
# Snippets.Proofs.CommandLine — every invocation can be written, and all its spellings mean the same

An invocation is written as its settings, in any order, and then its command. A setting with a value
has five spellings, of which each value allows some: attached to the long name with an equals sign,
attached to the letter with or without one, or as the next word. The group need not be set when it is
the one that is taken without. Words are texts, so of the roots those can be written that a text names.

Reading such words gives the invocation back (`parse_of_writes`). What carries the induction over the
settings is the judgement that a state of the reader stands for: a detached value is still pending when
its words have been read, but the options that settling it will give are the same as for an attached
value. Settings of different options can be exchanged, so the order in which they come does not matter.
-/
import Mathlib.Data.List.Nodup
import Snippets.CommandLine

namespace Snippets.CommandLine

/-! ## Spellings -/

/-- The long name of an option, behind two dashes. -/
def ValueOption.longName : ValueOption → Text
  | root => "root".toList
  | group => "group".toList

/-- The letter of an option, behind one dash. -/
def ValueOption.letter : ValueOption → Char
  | root => 'r'
  | group => 'g'

/-- A value that may be the next word: it does not look like an option. -/
def IsDetachable (value : Text) : Prop := value.head? = some '-' → value = ['-']

instance (value : Text) : Decidable (IsDetachable value) :=
  inferInstanceAs (Decidable (value.head? = some '-' → value = ['-']))

/-- The words that give a value to an option. -/
inductive ValueOption.Spells (name : ValueOption) (value : Text) : List Text → Prop
  /-- The long name, an equals sign and the value. -/
  | longAttached : Spells name value ['-' :: '-' :: (name.longName ++ '=' :: value)]
  /-- The long name, and the value as the next word. -/
  | longDetached (h : IsDetachable value) : Spells name value ['-' :: '-' :: name.longName, value]
  /-- The letter, and the value as the next word. -/
  | shortDetached (h : IsDetachable value) : Spells name value [['-', name.letter], value]
  /-- The letter, an equals sign and the value. -/
  | shortEquals (h : value ≠ []) : Spells name value ['-' :: name.letter :: '=' :: value]
  /-- The letter and the value, which has no equals sign in front that could be taken for the mark. -/
  | shortAttached (h : value ≠ []) (hequals : value.head? ≠ some '=') :
      Spells name value ['-' :: name.letter :: value]

/-- What one option says. -/
inductive Setting where
  /-- An option has a value. -/
  | value (name : ValueOption) (value : Text)
  /-- The export is left out. -/
  | noCache
deriving DecidableEq, Repr

/-- The words of a setting. -/
inductive Setting.Spells : Setting → List Text → Prop
  /-- An option with its value. -/
  | value {name : ValueOption} {value : Text} {words : List Text} (h : name.Spells value words) :
      Spells (.value name value) words
  /-- The flag. -/
  | noCache : Spells .noCache ["--no-cache".toList]

/-- The words of settings, one behind the other. -/
inductive OptionWords : List Setting → List Text → Prop
  /-- No settings. -/
  | nil : OptionWords [] []
  /-- A setting, and those behind it. -/
  | cons {s : Setting} {ss : List Setting} {words more : List Text} (h : s.Spells words)
      (hrest : OptionWords ss more) : OptionWords (s :: ss) (words ++ more)

/-- The words of a command. The name and the arguments of a snippet stand behind `--`, where nothing
is taken for an option. -/
def commandWords : Command → List Text
  | .render name args => "show".toList :: "--".toList :: name :: args
  | .listSnippets => ["ls".toList]
  | .listGroups => ["groups".toList]

/-- The settings beside that of the group. -/
def ungroupedSettings (root : Option Text) (noCache : Bool) : List Setting :=
  (root.map (Setting.value .root)).toList ++ if noCache then [.noCache] else []

/-- A root as it is given in words: the text names the path, or neither is given. -/
def NamesRoot (text : Option Text) (root : Option Path) : Prop := text.map Path.ofText = root

instance (text : Option Text) (root : Option Path) : Decidable (NamesRoot text root) :=
  inferInstanceAs (Decidable (text.map Path.ofText = root))

/-- The words that write an invocation. -/
inductive Writes (inv : Invocation) : List Text → Prop
  /-- All settings in some order, and the command. -/
  | grouped {root : Option Text} {ss : List Setting} {words : List Text}
      (hroot : NamesRoot root inv.root) (h : OptionWords ss words)
      (hsettings : ss.Perm (.value .group inv.group :: ungroupedSettings root inv.noCache)) :
      Writes inv (words ++ commandWords inv.command)
  /-- The settings without that of the group, and the command. -/
  | ungrouped {root : Option Text} {ss : List Setting} {words : List Text}
      (hroot : NamesRoot root inv.root) (h : OptionWords ss words)
      (hsettings : ss.Perm (ungroupedSettings root inv.noCache))
      (hgroup : inv.group = defaultGroup) : Writes inv (words ++ commandWords inv.command)

/-! ## Shapes -/

variable {name : ValueOption} {value word : Text}

theorem shape_of_isDetachable (h : IsDetachable value) : shape value = .plain := by
  cases value with
  | nil => rfl
  | cons c rest =>
    by_cases hdash : c = '-'
    · obtain rfl : rest = [] := (List.cons.inj (h (congrArg some hdash))).2
      rw [hdash]
      rfl
    · simp [shape, hdash]

theorem shape_longAttached :
    shape ('-' :: '-' :: (name.longName ++ '=' :: value)) = .valued name (some value) := by
  cases name <;> rfl

theorem shape_longDetached : shape ('-' :: '-' :: name.longName) = .valued name none := by
  cases name <;> rfl

theorem shape_shortDetached : shape ['-', name.letter] = .valued name none := by
  cases name <;> rfl

theorem shape_short (rest : Text) :
    shape ('-' :: name.letter :: rest) = .valued name (shortAttached rest) := by
  cases name <;> rfl

theorem shortAttached_of_head? (hne : value ≠ []) (h : value.head? ≠ some '=') :
    shortAttached value = some value := by
  obtain ⟨c, rest, rfl⟩ := List.exists_cons_of_ne_nil hne
  have hc : c ≠ '=' := fun heq => h (congrArg some heq)
  simp [shortAttached, hc]

/-! ## Options after settings -/

/-- The option that a setting is about; the flag is none of those with a value. -/
def Setting.target : Setting → Option ValueOption
  | .value name _ => some name
  | .noCache => Option.none

/-- The options after a setting. -/
def Options.set (o : Options) : Setting → Options
  | .value .root value => { o with root := some (Path.ofText value) }
  | .value .group value => { o with group := some value }
  | .noCache => { o with noCache := true }

/-- Nothing is said yet about the option of a setting. -/
def Options.Lacks (o : Options) : Setting → Prop
  | .value name _ => o.has name = false
  | .noCache => o.noCache = false

variable {o held given : Options} {pending : Pending} {s t : Setting} {rest : List Text}

@[simp] theorem has_set_value (o : Options) (name other : ValueOption) (value : Text) :
    (o.set (.value name value)).has other = (name = other || o.has other) := by
  cases name <;> cases other <;> rfl

@[simp] theorem has_set_noCache (o : Options) (name : ValueOption) :
    (o.set .noCache).has name = o.has name := by
  cases name <;> rfl

@[simp] theorem noCache_set_value (o : Options) (name : ValueOption) (value : Text) :
    (o.set (.value name value)).noCache = o.noCache := by
  cases name <;> rfl

@[simp] theorem noCache_set_noCache (o : Options) : (o.set .noCache).noCache = true := rfl

theorem lacks_none (s : Setting) : Options.none.Lacks s := by
  cases s with
  | value name value => cases name <;> rfl
  | noCache => rfl

/-- A setting says nothing about other options. -/
theorem Options.Lacks.set (h : o.Lacks t) (hne : s.target ≠ t.target) : (o.set s).Lacks t := by
  cases t with
  | noCache =>
    cases s with
    | noCache => exact absurd rfl hne
    | value name value => simpa [Options.Lacks] using h
  | value other more =>
    cases s with
    | noCache => simpa [Options.Lacks] using h
    | value name value =>
      have hother : name ≠ other := fun heq => hne (congrArg some heq)
      simpa [Options.Lacks, hother] using h

/-- Settings of different options can be exchanged. -/
theorem set_comm (hne : s.target ≠ t.target) : (o.set s).set t = (o.set t).set s := by
  cases s with
  | noCache =>
    cases t with
    | noCache => exact absurd rfl hne
    | value name value => cases name <;> rfl
  | value name value =>
    cases t with
    | noCache => cases name <;> rfl
    | value other more =>
      -- each setting writes a field of its own, unless both are about one option
      cases name <;> cases other
      · exact absurd rfl hne
      · rfl
      · rfl
      · exact absurd rfl hne

theorem foldl_set_of_perm {ss ts : List Setting} (hperm : ss.Perm ts)
    (hnodup : (ss.map Setting.target).Nodup) (o : Options) :
    ss.foldl Options.set o = ts.foldl Options.set o := by
  apply hperm.foldl_eq'
  intro s hs t ht o
  by_cases h : s.target = t.target
  · -- of one option there is only one setting
    rw [List.inj_on_of_nodup_map hnodup hs ht h]
  · exact set_comm h

/-! ## Reading settings -/

/-- What may be said: a root is not empty. -/
def Setting.IsAllowed (s : Setting) : Prop := s ≠ .value .root []

theorem give_eq_ok (hlacks : held.Lacks (.value name value))
    (hallowed : Setting.IsAllowed (.value name value)) :
    held.give name value = .ok (held.set (.value name value)) := by
  have hnew : held.has name = false := hlacks
  cases name with
  | group => simp [Options.give, hnew, Options.set]
  | root =>
    have hne : value ≠ [] := fun heq => hallowed (by rw [heq])
    simp [Options.give, hnew, hne, Options.set]

theorem readWords_attached (hshape : shape word = .valued name (some value))
    (hheld : o.settle pending = .ok held) (hgiven : held.give name value = .ok given) :
    readWords o pending (word :: rest) = readWords given .nothing rest := by
  simp only [readWords, hshape, hheld, hgiven]

theorem readWords_detached (hshape : shape word = .valued name none) (hvalue : shape value = .plain)
    (hheld : o.settle pending = .ok held) :
    readWords o pending (word :: value :: rest) = readWords held (.valued name value) rest := by
  simp only [readWords, hshape, hvalue, hheld]

theorem readWords_noCache (hheld : o.settle pending = .ok held) (hlacks : held.Lacks .noCache) :
    readWords o pending ("--no-cache".toList :: rest) =
      readWords (held.set .noCache) .nothing rest := by
  have hshape : shape "--no-cache".toList = .flag .noCache := rfl
  have hraise : held.raise .noCache = .ok (held.set .noCache) := by
    rw [Options.raise, show held.noCache = false from hlacks]
    rfl
  simp only [readWords, hshape, hheld, hraise]

/-- **Reading the words of a setting adds it to the options.** They may be held back by a value that is
still pending, before and after. -/
theorem readWords_setting {words : List Text} (h : s.Spells words)
    (hheld : o.settle pending = .ok held) (hlacks : held.Lacks s) (hallowed : s.IsAllowed) :
    ∃ o' pending', o'.settle pending' = .ok (held.set s) ∧
      ∀ rest, readWords o pending (words ++ rest) = readWords o' pending' rest := by
  cases h with
  | noCache =>
    exact ⟨held.set .noCache, .nothing, rfl, fun rest => readWords_noCache hheld hlacks⟩
  | @value name value words h =>
    have hgive : held.give name value = .ok (held.set (.value name value)) :=
      give_eq_ok hlacks hallowed
    cases h with
    | longAttached =>
      exact ⟨_, .nothing, rfl, fun rest => readWords_attached shape_longAttached hheld hgive⟩
    | longDetached hvalue =>
      exact ⟨held, .valued name value, hgive, fun rest =>
        readWords_detached shape_longDetached (shape_of_isDetachable hvalue) hheld⟩
    | shortDetached hvalue =>
      exact ⟨held, .valued name value, hgive, fun rest =>
        readWords_detached shape_shortDetached (shape_of_isDetachable hvalue) hheld⟩
    | shortEquals hne =>
      exact ⟨_, .nothing, rfl, fun rest => readWords_attached (shape_short _) hheld hgive⟩
    | shortAttached hne hequals =>
      have hshape : shape ('-' :: name.letter :: value) = .valued name (some value) := by
        rw [shape_short, shortAttached_of_head? hne hequals]
      exact ⟨_, .nothing, rfl, fun rest => readWords_attached hshape hheld hgive⟩

/-- Reading the words of settings, each of another option, adds them all. -/
theorem readWords_settings {ss : List Setting} {words : List Text} (h : OptionWords ss words)
    (hheld : o.settle pending = .ok held) (hnodup : (ss.map Setting.target).Nodup)
    (hlacks : ∀ s ∈ ss, held.Lacks s) (hallowed : ∀ s ∈ ss, s.IsAllowed) :
    ∃ o' pending', o'.settle pending' = .ok (ss.foldl Options.set held) ∧
      ∀ rest, readWords o pending (words ++ rest) = readWords o' pending' rest := by
  induction h generalizing o pending held with
  | nil => exact ⟨o, pending, hheld, fun rest => rfl⟩
  | @cons s ss words more hs _ ih =>
    obtain ⟨hlack, hlacks⟩ := List.forall_mem_cons.mp hlacks
    obtain ⟨hallow, hallowed⟩ := List.forall_mem_cons.mp hallowed
    obtain ⟨hnew, hnodup⟩ := List.nodup_cons.mp hnodup
    obtain ⟨o₁, pending₁, hheld₁, hread₁⟩ := readWords_setting hs hheld hlack hallow
    have hlacks₁ : ∀ t ∈ ss, (held.set s).Lacks t := fun t ht =>
      (hlacks t ht).set fun heq => hnew (heq ▸ List.mem_map_of_mem ht)
    obtain ⟨o₂, pending₂, hheld₂, hread₂⟩ := ih hheld₁ hnodup hlacks₁ hallowed
    refine ⟨o₂, pending₂, hheld₂, fun rest => ?_⟩
    rw [List.append_assoc, hread₁, hread₂]

/-! ## Reading the command -/

/-- The invocation of a command with some options. -/
def Options.invocation (o : Options) (command : Command) : Invocation where
  root := o.root
  group := o.group.getD defaultGroup
  noCache := o.noCache
  command := command

/-- The word of a command is no value: none is waited for when the options can be settled. -/
theorem readWords_commandName {commandName : CommandName} {command : Command}
    (hshape : shape word = .plain) (hname : commandName? word = some commandName)
    (hcommand : commandOf commandName rest = .ok command) (hheld : o.settle pending = .ok held) :
    readWords o pending (word :: rest) = .ok (held.invocation command) := by
  have hinvoke : invoke o pending commandName rest = .ok (held.invocation command) := by
    simp only [invoke, hcommand, hheld]
    rfl
  cases pending with
  | waiting name => exact absurd hheld (by simp [Options.settle])
  | nothing => simp only [readWords, hshape, hname, hinvoke]
  | valued name value => simp only [readWords, hshape, hname, hinvoke]

theorem readWords_commandWords (hheld : o.settle pending = .ok held) (command : Command) :
    readWords o pending (commandWords command) = .ok (held.invocation command) := by
  cases command with
  | render name args =>
    have hcommand : commandOf .render ("--".toList :: name :: args) = .ok (.render name args) := rfl
    exact readWords_commandName rfl rfl hcommand hheld
  | listSnippets => exact readWords_commandName rfl rfl rfl hheld
  | listGroups => exact readWords_commandName rfl rfl rfl hheld

/-! ## Writing and reading an invocation -/

variable {inv : Invocation} {words : List Text}

theorem exists_optionWords (ss : List Setting) : ∃ words, OptionWords ss words := by
  induction ss with
  | nil => exact ⟨[], .nil⟩
  | cons s ss ih =>
    obtain ⟨more, hmore⟩ := ih
    cases s with
    | value name value => exact ⟨_, .cons (.value .longAttached) hmore⟩
    | noCache => exact ⟨_, .cons .noCache hmore⟩

/-- The settings of an invocation are about different options. -/
theorem nodup_settings (group : Text) (root : Option Text) (noCache : Bool) :
    ((Setting.value .group group :: ungroupedSettings root noCache).map Setting.target).Nodup := by
  unfold ungroupedSettings
  cases root <;> cases noCache <;> simp [Setting.target]

theorem isAllowed_of_mem_settings {group : Text} {root : Option Text} {noCache : Bool}
    (hroot : root ≠ some [])
    (hs : s ∈ Setting.value .group group :: ungroupedSettings root noCache) : s.IsAllowed := by
  rintro rfl
  have hempty : root = some [] := by simpa [ungroupedSettings] using hs
  exact hroot hempty

variable {root : Option Text}

theorem invocation_grouped (hroot : NamesRoot root inv.root) :
    ((Setting.value .group inv.group :: ungroupedSettings root inv.noCache).foldl Options.set
      Options.none).invocation inv.command = inv := by
  obtain ⟨path, group, noCache, command⟩ := inv
  obtain rfl : root.map Path.ofText = path := hroot
  cases root <;> cases noCache <;> rfl

theorem invocation_ungrouped (hroot : NamesRoot root inv.root) (hgroup : inv.group = defaultGroup) :
    ((ungroupedSettings root inv.noCache).foldl Options.set Options.none).invocation inv.command =
      inv := by
  obtain ⟨path, group, noCache, command⟩ := inv
  obtain rfl : root.map Path.ofText = path := hroot
  obtain rfl : group = defaultGroup := hgroup
  cases root <;> cases noCache <;> rfl

/-- The words of settings and of a command are read to what the settings add up to, in any order in
which they may come. -/
theorem parse_optionWords {ss ts : List Setting} (h : OptionWords ss words) (hperm : ss.Perm ts)
    (hnodup : (ts.map Setting.target).Nodup) (hallowed : ∀ s ∈ ts, s.IsAllowed) (command : Command) :
    parse (words ++ commandWords command) =
      .ok ((ts.foldl Options.set Options.none).invocation command) := by
  have hnodup' : (ss.map Setting.target).Nodup :=
    (hperm.map Setting.target).nodup_iff.mpr hnodup
  have hallowed' : ∀ s ∈ ss, s.IsAllowed := fun s hs => hallowed s (hperm.subset hs)
  have hstart : Options.none.settle .nothing = .ok Options.none := rfl
  obtain ⟨o, pending, hheld, hread⟩ :=
    readWords_settings h hstart hnodup' (fun s _ => lacks_none s) hallowed'
  rw [parse, hread, readWords_commandWords hheld, foldl_set_of_perm hperm hnodup']

/-- **Every invocation can be written, and all its spellings mean the same.** Its settings may come in
any order, each in any spelling that its value allows, and that of the group may be left out for the
group that is taken without; the words are accepted and read to the invocation. A root that is given
must not be empty, and has to be one that a text names. -/
theorem parse_of_writes (inv : Invocation) (hroot : inv.root ≠ some []) :
    ((∃ words, Writes inv words) ↔ ∃ root, NamesRoot root inv.root) ∧
      ∀ words, Writes inv words → parse words = .ok inv := by
  constructor
  · constructor
    · rintro ⟨words, hwrites⟩
      cases hwrites with
      | grouped hnames => exact ⟨_, hnames⟩
      | ungrouped hnames => exact ⟨_, hnames⟩
    · rintro ⟨root, hnames⟩
      obtain ⟨words, h⟩ :=
        exists_optionWords (.value .group inv.group :: ungroupedSettings root inv.noCache)
      exact ⟨_, .grouped hnames h (.refl _)⟩
  · have hallowed {root : Option Text} (hnames : NamesRoot root inv.root) :
        ∀ s ∈ Setting.value .group inv.group :: ungroupedSettings root inv.noCache,
          s.IsAllowed := by
      have hne : root ≠ some [] := by
        rintro rfl
        exact hroot hnames.symm
      exact fun s => isAllowed_of_mem_settings hne
    intro words hwrites
    cases hwrites with
    | grouped hnames h hsettings =>
      rw [parse_optionWords h hsettings (nodup_settings _ _ _) (hallowed hnames),
        invocation_grouped hnames]
    | ungrouped hnames h hsettings hgroup =>
      rw [parse_optionWords h hsettings (List.nodup_cons.mp (nodup_settings inv.group _ _)).2
        (List.forall_mem_cons.mp (hallowed hnames)).2, invocation_ungrouped hnames hgroup]

/-- A group that is the word of a command, as the next word, a root with an equals sign in front, and
behind `--` a name and arguments that look like options. -/
theorem parse_of_writes_dashes :
    let inv : Invocation :=
      { root := some (Path.ofText "=x".toList), group := "ls".toList, noCache := true,
        command := .render "--".toList ["-h".toList, []] }
    let words := ["-g".toList, "ls".toList, "--no-cache".toList, "-r==x".toList, "show".toList,
      "--".toList, "--".toList, "-h".toList, []]
    inv.root ≠ some [] ∧ Writes inv words ∧ parse words = .ok inv := by
  intro inv words
  have hroot : inv.root ≠ some [] := by decide
  have hnames : NamesRoot (some "=x".toList) inv.root := rfl
  have hgroup : ValueOption.group.Spells "ls".toList ["-g".toList, "ls".toList] :=
    .shortDetached (by decide)
  have hequals : ValueOption.root.Spells "=x".toList ["-r==x".toList] := .shortEquals (by decide)
  have hoptions : OptionWords [.value .group "ls".toList, .noCache, .value .root "=x".toList]
      (["-g".toList, "ls".toList] ++ (["--no-cache".toList] ++ (["-r==x".toList] ++ []))) :=
    .cons (.value hgroup) (.cons .noCache (.cons (.value hequals) .nil))
  have hwrites : Writes inv words := .grouped hnames hoptions (by decide)
  exact ⟨hroot, hwrites, (parse_of_writes inv hroot).2 words hwrites⟩

end Snippets.CommandLine
