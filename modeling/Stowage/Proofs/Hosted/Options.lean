import Stowage.Hosted.Options

/-!
# What a list of options means

The options of a container are taken one after the other, and each is tried as a word, as a word
with a value, and as a seed.  Here their meaning is read off the texts, field by field.

A field has a reader of its own (`OptionField.read?`), which knows nothing of the others.  An
option becomes a setting exactly when a reader takes it (`reads_ofText?`, `ofText?_of_read?`),
and since a setting tells its field, no option is taken by two readers (`read?_unique`).

One more option then changes a field by what its reader takes, and no other field
(`value_elim_ofText?`).  So a field of the result is made of what its own reader takes, in the order
of the options (`value_parse`): a counter is the number of those options, a list holds their values,
and of the other values the last one counts (`RuntimeOptions.parse_eq_meaning`).
-/

namespace Stowage

/-! ## Numbers of 64 bits -/

namespace Text

/-- A text spells a number: decimal digits, at least one of them, after an optional plus sign. -/
def Spells (cs : List Char) (n : Nat) : Prop :=
  ∃ digits, (cs = digits ∨ cs = '+' :: digits) ∧ digits ≠ [] ∧
    (∀ c ∈ digits, c.isDigit = true) ∧ Nat.ofDigitChars 10 digits 0 = n

theorem digitValue?_eq (c : Char) :
    digitValue? c = if c.isDigit then some (c.toNat - '0'.toNat) else none := by
  unfold digitValue?
  simp only [Char.isDigit, Bool.and_eq_true, decide_eq_true_eq]
  rfl

theorem readDigits_eq_some {cs : List Char} {m n : Nat} :
    readDigits m cs = some n ↔
      (∀ c ∈ cs, c.isDigit = true) ∧ Nat.ofDigitChars 10 cs m = n := by
  induction cs generalizing m with
  | nil => simp [readDigits]
  | cons c cs ih =>
    rw [readDigits, digitValue?_eq, Nat.ofDigitChars_cons, Nat.mul_comm 10]
    by_cases hc : c.isDigit = true
    · simp [hc, ih]
    · simp [hc]

theorem readNat?_eq_some {cs : List Char} {n : Nat} :
    readNat? cs = some n ↔
      cs ≠ [] ∧ (∀ c ∈ cs, c.isDigit = true) ∧ Nat.ofDigitChars 10 cs 0 = n := by
  cases cs with
  | nil => simp [readNat?]
  | cons => simp [readNat?, readDigits_eq_some]

/-- **Reading a number of 64 bits** succeeds on the texts that spell one, and on no others. -/
theorem readUInt64?_eq_some {s : String} {n : UInt64} :
    readUInt64? s = some n ↔ Spells s.toList n.toNat := by
  have hfits (m : Nat) : (if m < UInt64.size then some (UInt64.ofNat m) else none) = some n ↔
      m = n.toNat := by
    rw [Option.ite_none_right_eq_some, Option.some.injEq]
    constructor
    · rintro ⟨hlt, rfl⟩
      exact (UInt64.toNat_ofNat_of_lt hlt).symm
    · rintro rfl
      exact ⟨n.toNat_lt_size, UInt64.ofNat_toNat⟩
  unfold readUInt64? Spells
  simp only [Option.bind_eq_bind, Option.bind_eq_some_iff, hfits, exists_eq_right,
    readNat?_eq_some]
  split
  · next cs heq =>
    rw [heq]
    constructor
    · exact fun h => ⟨cs, .inr rfl, h⟩
    · rintro ⟨digits, rfl | hcs, hne, hdigits, hvalue⟩
      · exact absurd (hdigits '+' List.mem_cons_self) (by decide)
      · rw [List.cons.injEq] at hcs
        exact hcs.2 ▸ ⟨hne, hdigits, hvalue⟩
  · next hplus =>
    constructor
    · exact fun h => ⟨_, .inl rfl, h⟩
    · rintro ⟨digits, hcs | hcs, h⟩
      · exact hcs ▸ h
      · exact absurd hcs (hplus _)

/-- What follows the start of a text. -/
theorem afterLead?_eq_some {lead s rest : String} :
    afterLead? lead s = some rest ↔ s.toList = lead.toList ++ rest.toList := by
  unfold afterLead?
  rw [Option.ite_none_right_eq_some, List.isPrefixOf_iff_prefix, Option.some.injEq]
  constructor
  · rintro ⟨⟨tail, htail⟩, rfl⟩
    rw [← htail, List.drop_left, String.toList_ofList]
  · intro h
    rw [h, List.drop_left, String.ofList_toList]
    exact ⟨List.prefix_append .., rfl⟩

end Text

/-! ## Readers of one option -/

namespace Setting

/-- An option consists of a word. -/
def isWord (word text : String) : Bool :=
  Text.trim text == word

/-- The value that an option gives to a word: what follows the first space, without the blanks
around it, if anything is left. -/
def valueOf? (word text : String) : Option String :=
  match Text.splitOnce ' ' (Text.trim text) with
  | some (before, after) =>
    if before = word ∧ Text.trim after ≠ "" then some (Text.trim after) else none
  | none => none

/-- The values of the option `X` that are not passed on. -/
def ownValues : List String :=
  ["utf8", "utf8=0", "utf8=1", "dev"]

/-- The value of an option `X` that is passed on. -/
def passedOn? (text : String) : Option String :=
  (valueOf? "X" text).filter (· ∉ ownValues)

/-- What a value of the option `X` says about UTF-8. -/
def utf8Choice? : String → Option Bool
  | "utf8" | "utf8=1" => some true
  | "utf8=0" => some false
  | _ => none

/-- What an option says about UTF-8. -/
def utf8Of? (text : String) : Option Bool :=
  (valueOf? "X" text).bind utf8Choice?

/-- An option asks for the mode of developers. -/
def isDeveloper (text : String) : Bool :=
  valueOf? "X" text == some "dev"

/-- The seed that an option gives. -/
def seedOf? (text : String) : Option UInt64 := do
  let rest ← Text.afterLead? "hash_seed=" (Text.trim text)
  Text.readUInt64? (Text.trim rest)

theorem valueOf?_eq_some {word text value : String} :
    valueOf? word text = some value ↔
      ∃ after, Text.splitOnce ' ' (Text.trim text) = some (word, after) ∧
        Text.trim after = value ∧ value ≠ "" := by
  unfold valueOf?
  cases hsplit : Text.splitOnce ' ' (Text.trim text) with
  | none => simp
  | some parts =>
    obtain ⟨before, after⟩ := parts
    constructor
    · intro h
      obtain ⟨⟨rfl, hne⟩, hvalue⟩ := Option.ite_none_right_eq_some.mp h
      rw [Option.some.injEq] at hvalue
      exact ⟨after, rfl, hvalue, hvalue ▸ hne⟩
    · rintro ⟨_, h, rfl, hne⟩
      cases h
      exact if_pos ⟨rfl, hne⟩

theorem passedOn?_eq_some {text value : String} :
    passedOn? text = some value ↔ valueOf? "X" text = some value ∧ value ∉ ownValues := by
  simp [passedOn?, Option.filter_eq_some_iff]

theorem seedOf?_eq_some {text : String} {seed : UInt64} :
    seedOf? text = some seed ↔
      ∃ rest, Text.afterLead? "hash_seed=" (Text.trim text) = some rest ∧
        Text.readUInt64? (Text.trim rest) = some seed := by
  simp [seedOf?, Option.bind_eq_some_iff]

/-- An option gives a seed when what follows the name, without the blanks around it, spells a
number of 64 bits. -/
theorem seedOf?_eq_some_iff_spells {text : String} {seed : UInt64} :
    seedOf? text = some seed ↔
      ∃ rest, (Text.trim text).toList = "hash_seed=".toList ++ rest ∧
        Text.Spells (Text.trimChars rest) seed.toNat := by
  simp only [seedOf?_eq_some, Text.afterLead?_eq_some, Text.readUInt64?_eq_some, Text.trim,
    String.toList_ofList]
  constructor
  · rintro ⟨rest, hlead, hspells⟩
    exact ⟨rest.toList, hlead, hspells⟩
  · rintro ⟨rest, hlead, hspells⟩
    exact ⟨.ofList rest, by simpa using hlead, by rwa [String.toList_ofList]⟩

end Setting

/-! ## Fields -/

/-- A field of the options. -/
inductive OptionField where
  | verbose
  | unbuffered
  | optimize
  | warnOptions
  | xOptions
  | hashSeed
  | utf8Mode
  | developerMode
  | extractionParent
  | contentsDirectory
  | ignoreSignals
  | restartForLibraryPath
  deriving DecidableEq, Repr

namespace OptionField

open Setting

variable {f g : OptionField}

/-- What one option gives to a field. -/
abbrev Item : OptionField → Type
  | warnOptions | xOptions | extractionParent | contentsDirectory => String
  | hashSeed => UInt64
  | utf8Mode => Bool
  | verbose | unbuffered | optimize | developerMode | ignoreSignals | restartForLibraryPath => Unit

/-- What a field holds. -/
abbrev Value : OptionField → Type
  | verbose | optimize => Int32
  | warnOptions | xOptions => List String
  | hashSeed => Option UInt64
  | utf8Mode => Option Bool
  | extractionParent | contentsDirectory => Option String
  | unbuffered | developerMode | ignoreSignals | restartForLibraryPath => Bool

/-- What a field holds in some options. -/
def value (o : RuntimeOptions) : (f : OptionField) → f.Value
  | verbose => o.verbose
  | unbuffered => o.unbuffered
  | optimize => o.optimize
  | warnOptions => o.warnOptions
  | xOptions => o.xOptions
  | hashSeed => o.hashSeed
  | utf8Mode => o.utf8Mode
  | developerMode => o.developerMode
  | extractionParent => o.launcher.extractionParent
  | contentsDirectory => o.launcher.contentsDirectory
  | ignoreSignals => o.launcher.ignoreSignals
  | restartForLibraryPath => o.launcher.restartForLibraryPath

/-- The value of a field after one more item. -/
def add : (f : OptionField) → f.Value → f.Item → f.Value
  | verbose | optimize => fun n _ => n + 1
  | warnOptions | xOptions => fun values value => values ++ [value]
  | hashSeed | utf8Mode | extractionParent | contentsDirectory => fun _ value => some value
  | unbuffered | developerMode | ignoreSignals | restartForLibraryPath => fun _ _ => true

/-- What an option gives to a field, if it gives it anything. -/
def read? (text : String) : (f : OptionField) → Option f.Item
  | verbose => Option.guard (fun _ => isWord "v" text) ()
  | unbuffered => Option.guard (fun _ => isWord "u" text) ()
  | optimize => Option.guard (fun _ => isWord "O" text) ()
  | warnOptions => valueOf? "W" text
  | xOptions => passedOn? text
  | hashSeed => seedOf? text
  | utf8Mode => utf8Of? text
  | developerMode => Option.guard (fun _ => isDeveloper text) ()
  | extractionParent => valueOf? "bootpack-runtime-tmpdir" text
  | contentsDirectory => valueOf? "bootpack-contents-directory" text
  | ignoreSignals => Option.guard (fun _ => isWord "bootpack-ignore-signals" text) ()
  | restartForLibraryPath => Option.guard (fun _ => isWord "bootpack-restart-libpath" text) ()

/-- The setting that gives an item to a field. -/
def setting : (f : OptionField) → f.Item → Setting
  | verbose, _ => .moreVerbose
  | unbuffered, _ => .unbuffered
  | optimize, _ => .moreOptimized
  | warnOptions, value => .warn value
  | xOptions, value => .x value
  | hashSeed, value => .hashSeed value
  | utf8Mode, value => .utf8Mode value
  | developerMode, _ => .developerMode
  | extractionParent, dir => .extractionParent dir
  | contentsDirectory, dir => .contentsDirectory dir
  | ignoreSignals, _ => .ignoreSignals
  | restartForLibraryPath, _ => .restartForLibraryPath

/-- An option addresses a field. -/
def isAddressed (f : OptionField) (text : String) : Bool :=
  (f.read? text).isSome

/-- A setting tells its field. -/
theorem eq_of_setting_eq {i : f.Item} {j : g.Item} (h : f.setting i = g.setting j) : f = g := by
  cases f <;> cases g <;> first | rfl | exact nomatch h

/-- Options are known by what their fields hold. -/
theorem eq_of_value_eq {o p : RuntimeOptions} (h : ∀ f : OptionField, f.value o = f.value p) :
    o = p := by
  rcases o with ⟨_, _, _, _, _, _, _, _, _, _, _, _⟩
  rcases p with ⟨_, _, _, _, _, _, _, _, _, _, _, _⟩
  simp only [RuntimeOptions.mk.injEq, LauncherOptions.mk.injEq]
  exact ⟨h verbose, h unbuffered, h optimize, h warnOptions, h xOptions, h hashSeed, h utf8Mode,
    h developerMode, h extractionParent, h contentsDirectory, h ignoreSignals,
    h restartForLibraryPath⟩

/-- A setting changes its own field by its item. -/
theorem value_apply (f : OptionField) (o : RuntimeOptions) (i : f.Item) :
    f.value ((f.setting i).apply o) = f.add (f.value o) i := by
  cases f <;> rfl

/-- A setting changes no field but its own. -/
theorem value_apply_of_ne (h : f ≠ g) (o : RuntimeOptions) (i : g.Item) :
    f.value ((g.setting i).apply o) = f.value o := by
  cases g <;> cases f <;> first | rfl | exact absurd rfl h

/-! ## What an option that becomes a setting gives -/

/-- A text gives a field the item of a setting. -/
def Reads (text : String) (s : Setting) : Prop :=
  ∃ f : OptionField, ∃ i : f.Item, s = f.setting i ∧ f.read? text = some i

/-- Every value of the option `X` is taken by the reader of the setting that it stands for. -/
theorem reads_ofX {text value : String} (h : valueOf? "X" text = some value) :
    Reads text (ofX value) := by
  have hutf8 {choice : Bool} (hchoice : utf8Choice? value = some choice) :
      utf8Of? text = some choice := by
    rw [utf8Of?, h, Option.bind_some, hchoice]
  unfold ofX
  split
  · exact ⟨utf8Mode, true, rfl, hutf8 rfl⟩
  · exact ⟨utf8Mode, true, rfl, hutf8 rfl⟩
  · exact ⟨utf8Mode, false, rfl, hutf8 rfl⟩
  · exact ⟨developerMode, (), rfl, by simp [read?, isDeveloper, h]⟩
  · next h₁ h₂ h₃ h₄ =>
    have hown : value ∉ ownValues := by
      simpa [ownValues] using And.intro h₁ ⟨h₃, h₂, h₄⟩
    exact ⟨xOptions, value, rfl, passedOn?_eq_some.mpr ⟨h, hown⟩⟩

theorem reads_ofWord? {text : String} {s : Setting} (h : ofWord? (Text.trim text) = some s) :
    Reads text s := by
  have hword {word : String} (hword : Text.trim text = word) :
      Option.guard (fun _ => isWord word text) () = some () := by
    simp [isWord, hword]
  unfold ofWord? at h
  split at h <;> cases h
  · next ht => exact ⟨verbose, (), rfl, hword ht⟩
  · next ht => exact ⟨unbuffered, (), rfl, hword ht⟩
  · next ht => exact ⟨optimize, (), rfl, hword ht⟩
  · next ht => exact ⟨ignoreSignals, (), rfl, hword ht⟩
  · next ht => exact ⟨restartForLibraryPath, (), rfl, hword ht⟩

theorem reads_ofPair? {text word after : String} {s : Setting}
    (hsplit : Text.splitOnce ' ' (Text.trim text) = some (word, after))
    (h : ofPair? word (Text.trim after) = some s) : Reads text s := by
  unfold ofPair? at h
  split at h
  · cases h
  · next hne =>
    have hvalue : valueOf? word text = some (Text.trim after) :=
      valueOf?_eq_some.mpr ⟨after, hsplit, rfl, hne⟩
    split at h <;> cases h
    · exact ⟨warnOptions, _, rfl, hvalue⟩
    · exact reads_ofX hvalue
    · exact ⟨extractionParent, _, rfl, hvalue⟩
    · exact ⟨contentsDirectory, _, rfl, hvalue⟩

theorem ofSeed?_trim (text : String) : ofSeed? (Text.trim text) = (seedOf? text).map .hashSeed := by
  simp only [ofSeed?, seedOf?, Option.bind_eq_bind, Option.map_eq_map, Option.map_bind]
  rfl

/-- An option that becomes a setting is taken by the reader of a field. -/
theorem reads_ofText? {text : String} {s : Setting} (h : ofText? text = some s) :
    Reads text s := by
  unfold ofText? ofTrimmed? at h
  rcases Option.or_eq_some_iff.mp (Option.orElse_eq_or.symm.trans h) with hdirect | ⟨-, hlead⟩
  · split at hdirect
    · next hsplit => exact reads_ofPair? hsplit hdirect
    · exact reads_ofWord? hdirect
  · rw [ofSeed?_trim] at hlead
    obtain ⟨seed, hseed, rfl⟩ := Option.map_eq_some_iff.mp hlead
    exact ⟨hashSeed, seed, rfl, hseed⟩

/-! ## What an option that is read becomes -/

theorem ofText?_of_isWord {word text : String} {s : Setting} (h : isWord word text = true)
    (hword : ofTrimmed? word = some s) : ofText? text = some s := by
  rw [ofText?, beq_iff_eq.mp h, hword]

theorem ofText?_of_valueOf? {word text value : String} {s : Setting}
    (h : valueOf? word text = some value) (hpair : value ≠ "" → ofPair? word value = some s) :
    ofText? text = some s := by
  obtain ⟨after, hsplit, rfl, hne⟩ := valueOf?_eq_some.mp h
  simp [ofText?, ofTrimmed?, hsplit, hpair hne]

theorem ofText?_of_x {text value : String} (h : valueOf? "X" text = some value) :
    ofText? text = some (ofX value) :=
  ofText?_of_valueOf? h fun hne => if_neg hne

theorem ofX_of_notMem {value : String} (h : value ∉ ownValues) : ofX value = .x value := by
  unfold ofX
  split <;> first | rfl | exact absurd (by decide) h

theorem ofX_of_utf8Choice? {value : String} {choice : Bool} (h : utf8Choice? value = some choice) :
    ofX value = .utf8Mode choice := by
  unfold utf8Choice? at h
  split at h <;> cases h <;> rfl

/-- The first part of a text starts as the text does, unless the text starts with the separator. -/
theorem head?_of_splitOnce {separator c : Char} {text before after : String}
    (hsplit : Text.splitOnce separator text = some (before, after))
    (hhead : text.toList.head? = some c) (hne : c ≠ separator) :
    before.toList.head? = some c := by
  obtain ⟨⟨first, rest⟩, hparts, hpair⟩ := Option.map_eq_some_iff.mp hsplit
  cases hpair
  rw [(Text.splitOnceChars_eq_some hparts).1] at hhead
  rw [String.toList_ofList]
  cases first with
  | nil => exact absurd (Option.some.inj hhead).symm hne
  | cons => exact hhead

/-- A text that starts as a seed does is neither a word nor a word with a value, since none of
the words starts with the same letter. -/
theorem ofTrimmed?_of_lead {text rest : String}
    (h : Text.afterLead? "hash_seed=" text = some rest) : ofTrimmed? text = ofSeed? text := by
  have hhead : text.toList.head? = some 'h' := by
    rw [Text.afterLead?_eq_some.mp h]
    rfl
  unfold ofTrimmed?
  cases hsplit : Text.splitOnce ' ' text with
  | none =>
    have hnone : ofWord? text = none := by
      unfold ofWord?
      split <;> first | exact absurd hhead (by decide) | rfl
    simp [hnone]
  | some parts =>
    obtain ⟨word, value⟩ := parts
    have hword := head?_of_splitOnce hsplit hhead (by decide)
    have hnone : ofPair? word (Text.trim value) = none := by
      unfold ofPair?
      repeat' split
      all_goals first | exact absurd hword (by decide) | rfl
    simp [hnone]

theorem ofText?_of_seedOf? {text : String} {seed : UInt64} (h : seedOf? text = some seed) :
    ofText? text = some (.hashSeed seed) := by
  obtain ⟨rest, hlead, -⟩ := seedOf?_eq_some.mp h
  rw [ofText?, ofTrimmed?_of_lead hlead, ofSeed?_trim, h]
  rfl

/-- An option that the reader of a field takes becomes the setting of the item. -/
theorem ofText?_of_read? {text : String} {i : f.Item} (h : f.read? text = some i) :
    ofText? text = some (f.setting i) := by
  cases f with
  | verbose | unbuffered | optimize | ignoreSignals | restartForLibraryPath =>
    simp only [read?, Option.guard_eq_some_iff] at h
    exact ofText?_of_isWord h.2 rfl
  | warnOptions | extractionParent | contentsDirectory =>
    simp only [read?] at h
    exact ofText?_of_valueOf? h fun hne => if_neg hne
  | developerMode =>
    simp only [read?, isDeveloper, Option.guard_eq_some_iff, beq_iff_eq] at h
    exact ofText?_of_x h.2
  | hashSeed =>
    simp only [read?] at h
    exact ofText?_of_seedOf? h
  | xOptions =>
    simp only [read?] at h
    obtain ⟨hvalue, hown⟩ := passedOn?_eq_some.mp h
    exact (ofText?_of_x hvalue).trans (congrArg some (ofX_of_notMem hown))
  | utf8Mode =>
    simp only [read?] at h
    obtain ⟨value, hvalue, hchoice⟩ := Option.bind_eq_some_iff.mp h
    exact (ofText?_of_x hvalue).trans (congrArg some (ofX_of_utf8Choice? hchoice))

/-- **No option is taken by two readers.** -/
theorem read?_unique {text : String} {i : f.Item} {j : g.Item} (hf : f.read? text = some i)
    (hg : g.read? text = some j) : f = g :=
  eq_of_setting_eq (Option.some.inj ((ofText?_of_read? hf).symm.trans (ofText?_of_read? hg)))

/-! ## Fields of a whole list -/

/-- **One more option** changes a field by what its reader takes. -/
theorem value_elim_ofText? (f : OptionField) (o : RuntimeOptions) (text : String) :
    f.value ((ofText? text).elim o (apply o)) =
      (f.read? text).elim (f.value o) (f.add (f.value o)) := by
  cases hread : f.read? text with
  | some i =>
    rw [ofText?_of_read? hread]
    exact value_apply f o i
  | none =>
    cases hs : ofText? text with
    | none => rfl
    | some s =>
      -- the setting is that of another field, whose reader has taken the option
      obtain ⟨g, i, rfl, hg⟩ := reads_ofText? hs
      have hne : f ≠ g := by
        rintro rfl
        exact nomatch hread.symm.trans hg
      exact value_apply_of_ne hne o i

theorem foldl_filterMap_cons {α β γ : Type} (read : α → Option β) (add : γ → β → γ) (a : α)
    (l : List α) (c : γ) :
    ((a :: l).filterMap read).foldl add c =
      (l.filterMap read).foldl add ((read a).elim c (add c)) := by
  cases h : read a <;> simp [h]

/-- **A list of options** changes a field by what its reader takes of them, one after the other. -/
theorem value_foldl_apply (f : OptionField) (options : List String) (o : RuntimeOptions) :
    f.value ((options.filterMap ofText?).foldl apply o) =
      (options.filterMap f.read?).foldl f.add (f.value o) := by
  induction options generalizing o with
  | nil => rfl
  | cons text options ih =>
    rw [foldl_filterMap_cons, foldl_filterMap_cons, ih, value_elim_ofText?]

theorem value_parse (f : OptionField) (options : List String) :
    f.value (.parse options) = (options.filterMap f.read?).foldl f.add (f.value .none) :=
  value_foldl_apply f options .none

/-- What a field holds depends on nothing but the options that address it. -/
theorem value_parse_congr {options options' : List String}
    (h : options.filter f.isAddressed = options'.filter f.isAddressed) :
    f.value (.parse options) = f.value (.parse options') := by
  have hread (options : List String) :
      options.filterMap f.read? = (options.filter f.isAddressed).filterMap f.read? := by
    rw [List.filterMap_filter]
    refine congrArg (List.filterMap · options) (funext fun text => ?_)
    cases hread : f.read? text <;> simp [isAddressed, hread]
  rw [value_parse, value_parse, hread, h, ← hread]

end OptionField

/-! ## The meaning of a list -/

theorem foldl_succ {α : Type} (items : List α) (n : Nat) :
    items.foldl (fun k _ => k + 1) (Int32.ofNat n) = .ofNat (n + items.length) := by
  induction items generalizing n with
  | nil => rfl
  | cons _ items ih =>
    rw [List.foldl_cons, List.length_cons, Nat.add_comm items.length, ← Nat.add_assoc, ← ih,
      Int32.ofNat_add]
    rfl

theorem foldl_concat {α : Type} (items values : List α) :
    items.foldl (fun values value => values ++ [value]) values = values ++ items := by
  induction items generalizing values with
  | nil => simp
  | cons _ items ih => simp [ih]

theorem foldl_some {α : Type} (items : List α) (last : Option α) :
    items.foldl (fun _ value => some value) last = items.getLast?.or last := by
  induction items generalizing last with
  | nil => rfl
  | cons _ items ih => simp [ih, List.getLast?_cons]

theorem foldl_true {α : Type} (items : List α) (flag : Bool) :
    items.foldl (fun _ _ => true) flag = (flag || !items.isEmpty) := by
  induction items generalizing flag with
  | nil => simp
  | cons _ items ih => simp [ih]

namespace RuntimeOptions

open Setting

/-- What a list of options means, read off the texts. -/
def meaning (options : List String) : RuntimeOptions where
  verbose := .ofNat (options.countP (isWord "v"))
  unbuffered := options.any (isWord "u")
  optimize := .ofNat (options.countP (isWord "O"))
  warnOptions := options.filterMap (valueOf? "W")
  xOptions := options.filterMap passedOn?
  hashSeed := (options.filterMap seedOf?).getLast?
  utf8Mode := (options.filterMap utf8Of?).getLast?
  developerMode := options.any isDeveloper
  launcher :=
    { extractionParent := (options.filterMap (valueOf? "bootpack-runtime-tmpdir")).getLast?
      contentsDirectory := (options.filterMap (valueOf? "bootpack-contents-directory")).getLast?
      ignoreSignals := options.any (isWord "bootpack-ignore-signals")
      restartForLibraryPath := options.any (isWord "bootpack-restart-libpath") }

theorem foldl_guard_succ (p : String → Bool) (options : List String) :
    (options.filterMap fun text => Option.guard (fun _ => p text) ()).foldl (fun k _ => k + 1)
      (0 : Int32) = .ofNat (options.countP p) := by
  refine (foldl_succ _ 0).trans (congrArg Int32.ofNat ?_)
  rw [Nat.zero_add, List.length_filterMap_eq_countP]
  simp

theorem foldl_guard_true (p : String → Bool) (options : List String) :
    (options.filterMap fun text => Option.guard (fun _ => p text) ()).foldl (fun _ _ => true)
      false = options.any p := by
  rw [foldl_true, Bool.false_or]
  induction options with
  | nil => rfl
  | cons text options ih => cases h : p text <;> simp [h, ih]

/-- **The fields of a list of options** are what their readers make of the texts. -/
theorem parse_eq_meaning (options : List String) : parse options = meaning options := by
  refine OptionField.eq_of_value_eq fun f => ?_
  rw [OptionField.value_parse]
  cases f with
  | verbose | optimize => exact foldl_guard_succ _ _
  | unbuffered | developerMode | ignoreSignals | restartForLibraryPath =>
    exact foldl_guard_true _ _
  | warnOptions | xOptions => exact foldl_concat _ _
  | hashSeed | utf8Mode | extractionParent | contentsDirectory =>
    exact (foldl_some _ _).trans (Option.or_none ..)

/-- The counters are the numbers of their words, as long as these are in their range. -/
theorem toInt_verbose {options : List String}
    (h : options.countP (isWord "v") < 0x80000000) :
    (parse options).verbose.toInt = options.countP (isWord "v") := by
  rw [parse_eq_meaning]
  exact Int32.toInt_ofNat_of_lt h

theorem toInt_optimize {options : List String}
    (h : options.countP (isWord "O") < 0x80000000) :
    (parse options).optimize.toInt = options.countP (isWord "O") := by
  rw [parse_eq_meaning]
  exact Int32.toInt_ofNat_of_lt h

/-- **What a list of options means, field by field.**  The fields are read off the texts
independently of one another; the counters are exact as long as the numbers fit; a seed is a text
that spells a number of 64 bits.  No option addresses two fields.  A field depends on nothing but
the options that address it, so that options which address no field can be left out, and
options of different fields can change places. -/
theorem parse_fieldwise :
    (∀ options, parse options = meaning options ∧
      (options.countP (isWord "v") < 0x80000000 →
        (parse options).verbose.toInt = options.countP (isWord "v")) ∧
      (options.countP (isWord "O") < 0x80000000 →
        (parse options).optimize.toInt = options.countP (isWord "O"))) ∧
    (∀ text seed, seedOf? text = some seed ↔
      ∃ rest, (Text.trim text).toList = "hash_seed=".toList ++ rest ∧
        Text.Spells (Text.trimChars rest) seed.toNat) ∧
    (∀ (f g : OptionField) text, f.isAddressed text → g.isAddressed text → f = g) ∧
    (∀ (f : OptionField) options options',
      options.filter f.isAddressed = options'.filter f.isAddressed →
        f.value (parse options) = f.value (parse options')) ∧
    (∀ options options',
      (∀ f : OptionField, options.filter f.isAddressed = options'.filter f.isAddressed) →
        parse options = parse options') ∧
    (∀ before text after, (∀ f : OptionField, f.isAddressed text = false) →
      parse (before ++ text :: after) = parse (before ++ after)) ∧
    (∀ before a b after, (∀ f : OptionField, ¬ (f.isAddressed a ∧ f.isAddressed b)) →
      parse (before ++ a :: b :: after) = parse (before ++ b :: a :: after)) := by
  have hcongr {options options' : List String}
      (h : ∀ f : OptionField, options.filter f.isAddressed = options'.filter f.isAddressed) :
      parse options = parse options' :=
    OptionField.eq_of_value_eq fun f => OptionField.value_parse_congr (h f)
  refine ⟨fun options => ⟨parse_eq_meaning options, toInt_verbose, toInt_optimize⟩,
    fun _ _ => seedOf?_eq_some_iff_spells, ?_,
    fun _ _ _ => OptionField.value_parse_congr, fun _ _ => hcongr, ?_, ?_⟩
  · intro f g text hf hg
    obtain ⟨i, hi⟩ := Option.isSome_iff_exists.mp hf
    obtain ⟨j, hj⟩ := Option.isSome_iff_exists.mp hg
    exact OptionField.read?_unique hi hj
  · intro before text after h
    exact hcongr fun f => by simp [h f]
  · intro before a b after h
    refine hcongr fun f => ?_
    have hf := h f
    cases ha : f.isAddressed a <;> cases hb : f.isAddressed b <;> simp_all

/-- The general statement for options of many fields: with blanks around them, a value too many,
values of `X` of all kinds, and a seed that is no number. -/
theorem parse_fieldwise_mixed :
    parse ["hash_seed= 42", " v ", "X dev", "W  a b ", "v extra", "X utf8=0", "O", "hash_seed=x"] =
      ⟨1, false, 1, ["a b"], [], some 42, some false, true, ⟨.none, .none, false, false⟩⟩ ∧
    (parse ["v", "W v", "v"]).verbose.toInt = 2 ∧
    (parse ["v", "W v", "v"]).optimize.toInt = 0 ∧
    OptionField.xOptions.value (parse ["v", "X a", "X dev"]) =
      OptionField.xOptions.value (parse ["X a", "W b"]) ∧
    parse ["W b", "X a", "W c"] = parse ["W b", "W c", "X a"] ∧
    parse (["v"] ++ "v extra" :: ["v"]) = parse (["v"] ++ ["v"]) ∧
    parse (["v"] ++ "W a" :: "X b" :: ["W c"]) = parse (["v"] ++ "X b" :: "W a" :: ["W c"]) := by
  obtain ⟨hmeaning, -, hunique, hfield, hall, hother, hswap⟩ := parse_fieldwise
  have hfields : ∀ f : OptionField,
      ¬ (f.isAddressed "W a" = true ∧ f.isAddressed "X b" = true) := fun f h =>
    absurd ((hunique f .warnOptions "W a" h.1 (by decide)).symm.trans
      (hunique f .xOptions "X b" h.2 (by decide))) (by decide)
  refine ⟨?_, (hmeaning _).2.1 (by decide), (hmeaning _).2.2 (by decide), hfield _ _ _ (by decide),
    hall _ _ ?_, hother _ _ _ ?_, hswap _ _ _ _ hfields⟩
  · rw [(hmeaning _).1]
    rfl
  · intro f
    cases f <;> decide
  · intro f
    cases f <;> decide

end RuntimeOptions

end Stowage
