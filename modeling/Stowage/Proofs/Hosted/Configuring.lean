import Stowage.Proofs.Hosted.Filling
import Stowage.Proofs.Hosted.Starting

/-!
# Handing over a configuration

What a field of a record holds depends on the memory of the runtime: a text and a list are
behind addresses.  `RecordMemory` reads them, in whatever way a runtime keeps them, and
`Turn.FillsAsDocumented` says what is documented of the entry points in these terms: what each
of them puts into the record, and that it leaves the rest alone.  A filling that succeeds then
changes what the fields hold item by item (`Fills.contents`), and the numbers have been written
before (`content_setNumbers`).

`ConfigurationRun` collects what is known of the initialisation that is a part of every start
(`BoundRuntime.start_eq`), whatever is answered, for any of the supported versions.
-/

namespace Stowage

/-! ## What a record holds -/

/-- What a field of a record holds. -/
inductive FieldContent where
  | number (value : Int32)
  | long (value : UInt64)
  /-- A text, or null. -/
  | text (value : Option String)
  | list (values : List String)
  deriving DecidableEq

/-- The list with more texts at its end. -/
def FieldContent.append : FieldContent → List String → FieldContent
  | list values, more => list (values ++ more)
  | other, _ => other

/-- How a runtime keeps the texts of a record. -/
structure RecordMemory (σ κ : Type) where
  /-- What belongs to the record, apart from its words. -/
  owned : σ → κ
  /-- The text that the words of a field lead to. -/
  text : κ → Words → Option String
  /-- The texts that the words of a field lead to. -/
  list : κ → Words → List String
  /-- The text that has been decoded to an address. -/
  decoded : σ → Pointer → Option String

namespace RecordMemory
variable {σ κ : Type} (m : RecordMemory σ κ)

/-- What the words of a field of some width hold. -/
def read (owned : κ) (words : Words) : FieldWidth → FieldContent
  | .int => .number (words.getD 0 0).toInt32
  | .long => .long (.ofNat ((words.getD 0 0).toNat + UInt32.size * (words.getD 1 0).toNat))
  | .pointer => .text (m.text owned words)
  | .list => .list (m.list owned words)

/-- What a field of a record holds. -/
def content (l : Layout) (s : σ) (record : Words) (f : ConfigField) : FieldContent :=
  m.read (m.owned s) (l.words record f) f.width

end RecordMemory

/-- What the settings ask of a field, whatever the version.  They say nothing of the seed if there
is none. -/
def StartSettings.content? (s : StartSettings) : ConfigField → Option FieldContent
  | .isolated => some (.number 1)
  | .useEnvironment => some (.number 0)
  | .devMode => some (.number (if s.options.developerMode then 1 else 0))
  | .installSignalHandlers => some (.number 1)
  | .useHashSeed => s.options.hashSeed.map fun _ => .number 1
  | .hashSeed => s.options.hashSeed.map .long
  | .parseArgv => some (.number 0)
  | .argv => some (.list s.argv)
  | .programName => some (.text (some s.programName.text))
  | .xoptions => some (.list s.options.xOptions)
  | .warnoptions => some (.list s.options.warnOptions)
  | .siteImport => some (.number 0)
  | .optimizationLevel => some (.number s.options.optimize)
  | .writeBytecode => some (.number 0)
  | .verbose => some (.number s.options.verbose)
  | .userSiteDirectory => some (.number 0)
  | .configureCStdio => some (.number 1)
  | .bufferedStdio => some (.number (if s.options.unbuffered then 0 else 1))
  | .home => some (.text (some s.home.text))
  | .moduleSearchPathsSet => some (.number 1)
  | .moduleSearchPaths => some (.list (s.searchPaths.map Path.text))

/-! ## What is documented of the entry points -/

/-- What an entry point reports to have done for a record. -/
inductive RecordEvent where
  | makes (record made : Words)
  | setsText (record : Words) (offset : Nat) (value : String) (filled : Words)
  | decodes (value : String) (text : Pointer)
  | adds (record : Words) (offset : Nat) (text : Pointer) (filled : Words)
  | frees (text : Pointer)
  | setsArguments (record : Words) (values : List String) (filled : Words)

/-- What the entry point reports to have done, unless it reports failure. -/
def Exchange.event? : Exchange → Option RecordEvent
  | @mk _ (.isolatedConfig record) made => some (.makes record made)
  | @mk _ (.setString record offset value) answer =>
    if answer.1.isOk then some (.setsText record offset value answer.2) else none
  | @mk _ (.decodeLocale value) answer => answer.map (.decodes value)
  | @mk _ (.appendText record offset text) answer =>
    if answer.1.isOk then some (.adds record offset text answer.2) else none
  | @mk _ (.freeText text) _ => some (.frees text)
  | @mk _ (.setArgv record values) answer =>
    if answer.1.isOk then some (.setsArguments record values answer.2) else none
  | _ => none

section
variable {σ κ : Type} (m : RecordMemory σ κ) (l : Layout)

/-- What is documented of an entry point.  A record that has been made has empty lists.  A field
that is set or added to holds what it should, and the other fields hold what they held.  What is
decoded or freed belongs to no record. -/
def RecordEvent.IsDocumented (before after : σ) : RecordEvent → Prop
  | makes record made => made.length = record.length ∧
    ∀ f ∈ ConfigField.all, f.width = .list → m.content l after made f = .list []
  | setsText record offset value filled => ∀ f ∈ ConfigField.all,
    (l.offset f = offset → f.width = .pointer → m.content l after filled f = .text (some value)) ∧
      (l.offset f ≠ offset → m.content l after filled f = m.content l before record f)
  | decodes value text => m.decoded after text = some value ∧ m.owned after = m.owned before
  | adds record offset text filled => ∀ f ∈ ConfigField.all,
    (l.offset f = offset → f.width = .list → ∀ value ∈ m.decoded before text,
      m.content l after filled f = (m.content l before record f).append [value]) ∧
      (l.offset f ≠ offset → m.content l after filled f = m.content l before record f)
  | frees _ => m.owned after = m.owned before
  | setsArguments record values filled => ∀ f ∈ ConfigField.all,
    m.content l after filled f =
      if f = .argv then .list values else m.content l before record f

instance [DecidableEq κ] (before after : σ) :
    (event : RecordEvent) → Decidable (event.IsDocumented m l before after)
  | .makes _ _ => inferInstanceAs (Decidable (_ ∧ _))
  | .setsText .. => inferInstanceAs (Decidable (∀ f ∈ ConfigField.all, _ ∧ _))
  | .decodes _ _ => inferInstanceAs (Decidable (_ ∧ _))
  | .adds .. => inferInstanceAs (Decidable (∀ f ∈ ConfigField.all, _ ∧ _))
  | .frees _ => inferInstanceAs (Decidable (_ = _))
  | .setsArguments .. => inferInstanceAs (Decidable (∀ f ∈ ConfigField.all, _ = _))

/-- In a turn, the entry point does what is documented of it. -/
def Turn.FillsAsDocumented (turn : Turn σ) : Prop :=
  ∀ event ∈ turn.exchange.event?, event.IsDocumented m l turn.before turn.after

instance [DecidableEq κ] (turn : Turn σ) : Decidable (turn.FillsAsDocumented m l) :=
  inferInstanceAs (Decidable (∀ event ∈ turn.exchange.event?, _))

end

/-! ## Writing the numbers -/

section
variable {σ κ : Type} {m : RecordMemory σ κ} {l : Layout} {s : σ} {record : Words}

/-- The two halves of a number make up the number. -/
theorem ofNat_halves (value : UInt64) :
    UInt64.ofNat (value.toUInt32.toNat + UInt32.size * (value >>> 32).toUInt32.toNat) = value := by
  have hlow : value.toUInt32.toNat = value.toNat % UInt32.size := rfl
  have hhigh : (value >>> 32).toUInt32.toNat = value.toNat / UInt32.size := by
    have hlt : value.toNat / UInt32.size < UInt32.size := by
      have hvalue : value.toNat < UInt64.size := value.toNat_lt
      simp only [UInt64.size, UInt32.size] at hvalue ⊢
      omega
    rw [UInt64.toNat_toUInt32, UInt64.toNat_shiftRight, Nat.shiftRight_eq_div_pow]
    exact Nat.mod_eq_of_lt hlt
  rw [hlow, hhigh, Nat.mod_add_div, UInt64.ofNat_toNat]

/-- **Writing the numbers** puts into the fields what the settings ask, as far as they are numbers,
and leaves the others. -/
theorem content_setNumbers (h : l.IsRegular) (settings : StartSettings) (hfits : l.Fits record)
    (f : ConfigField) :
    m.content l s (Filling.setNumbers l settings.options record) f =
      if f.width = .int ∨ f.width = .long then
        (settings.content? f).getD (m.content l s record f)
      else m.content l s record f := by
  unfold RecordMemory.content
  rw [Filling.words_setNumbers h settings.options hfits]
  cases f with
  | hashSeed =>
    unfold Filling.numberWords? StartSettings.content?
    cases settings.options.hashSeed with
    | none => rfl
    | some seed => exact congrArg FieldContent.long (ofNat_halves seed)
  | useHashSeed =>
    unfold Filling.numberWords? StartSettings.content?
    cases settings.options.hashSeed <;> rfl
  | _ => rfl

/-! ## Putting items -/

/-- What the fields hold when one more item has been put into the record. -/
def ConfigItem.change (held : ConfigField → FieldContent) : ConfigItem → ConfigField → FieldContent
  | text field _ value, f => if f = field then .text (some value) else held f
  | element field _ value, f => if f = field then (held f).append [value] else held f
  | arguments values, f => if f = .argv then .list values else held f

/-- The field of an item can hold it. -/
def ConfigItem.IsTyped : ConfigItem → Prop
  | text field _ _ => field.width = .pointer
  | element field _ _ => field.width = .list
  | arguments _ => True

/-- What belongs to no record changes nothing of what a record holds. -/
theorem RecordMemory.content_congr {s' : σ} (h : m.owned s' = m.owned s) :
    m.content l s' record = m.content l s record := by
  unfold content
  rw [h]

variable {item : ConfigItem} {items : List ConfigItem} {o : FillingOutcome σ}

/-- **One item that has been put** changes what its field holds, and nothing else. -/
theorem ConfigItem.Puts.contents (h : item.Puts l record s o) (hl : l.IsRegular)
    (hitem : item.IsTyped) (hok : o.result = .ok ())
    (hdoc : ∀ turn ∈ o.turns, turn.FillsAsDocumented m l) (f : ConfigField) :
    m.content l o.state o.record f = item.change (m.content l s record) f := by
  cases h with
  | stopped | undecoded => cases hok
  | @text field _ value _ _ answer s' hpassable =>
    have hstatus := Filling.isOk_of_verdict hok
    obtain ⟨hset, hkept⟩ := hdoc _ List.mem_cons_self (.setsText record _ value answer.2)
      (if_pos hstatus) f f.mem_all
    by_cases hf : f = field
    · subst hf
      rw [ConfigItem.change, if_pos rfl]
      exact hset rfl hitem
    · rw [ConfigItem.change, if_neg hf]
      exact hkept (hl.offset_ne hf)
  | @element field _ value text _ _ s₁ answer s₂ s₃ hpassable =>
    have hstatus := Filling.isOk_of_verdict hok
    obtain ⟨hdecoding, hrest⟩ := List.forall_mem_cons.mp hdoc
    obtain ⟨hadding, hrest⟩ := List.forall_mem_cons.mp hrest
    obtain ⟨hfreeing, -⟩ := List.forall_mem_cons.mp hrest
    obtain ⟨hdecoded, howned⟩ : m.decoded s₁ text = some value ∧ m.owned s₁ = m.owned s :=
      hdecoding (.decodes value text) rfl
    obtain ⟨hadded, hkept⟩ := hadding (.adds record _ text answer.2) (if_pos hstatus) f f.mem_all
    have hfreed : m.owned s₃ = m.owned s₂ := hfreeing (.frees text) rfl
    -- what is decoded and freed in between belongs to no record
    rw [RecordMemory.content_congr howned] at hadded hkept
    rw [RecordMemory.content_congr hfreed]
    by_cases hf : f = field
    · subst hf
      rw [ConfigItem.change, if_pos rfl]
      exact hadded rfl hitem value hdecoded
    · rw [ConfigItem.change, if_neg hf]
      exact hkept (hl.offset_ne hf)
  | @arguments values _ _ answer s' hpassable =>
    have hstatus := Filling.isOk_of_verdict hok
    exact hdoc _ List.mem_cons_self (.setsArguments record values answer.2) (if_pos hstatus) f
      f.mem_all

/-- **A filling that succeeds** changes what the fields hold item by item. -/
theorem Fills.contents (h : Fills l items record s o) (hl : l.IsRegular)
    (hitems : ∀ item ∈ items, item.IsTyped) (hok : o.result = .ok ())
    (hdoc : ∀ turn ∈ o.turns, turn.FillsAsDocumented m l) :
    m.content l o.state o.record = items.foldl ConfigItem.change (m.content l s record) := by
  induction h with
  | done => rfl
  | stops _ hfailed =>
    rw [hfailed] at hok
    cases hok
  | goes hput hfirst _ ih =>
    obtain ⟨hdoc₁, hdoc₂⟩ := List.forall_mem_append.mp hdoc
    obtain ⟨hitem, hrest⟩ := List.forall_mem_cons.mp hitems
    have hheld := funext (hput.contents hl hitem hfirst hdoc₁)
    rw [List.foldl_cons, ← hheld]
    exact ih hrest hok hdoc₂

/-- Elements are added to their list in order. -/
theorem foldl_elements (field : ConfigField) (what : String) (values : List String)
    (held : ConfigField → FieldContent) :
    (values.map (ConfigItem.element field what)).foldl ConfigItem.change held =
      fun f => if f = field then (held f).append values else held f := by
  induction values generalizing held with
  | nil =>
    funext f
    cases hf : held f <;> simp [FieldContent.append, hf]
  | cons value rest ih =>
    rw [List.map_cons, List.foldl_cons, ih]
    funext f
    by_cases hf : f = field
    · cases hheld : held f <;> simp [ConfigItem.change, FieldContent.append, hf ▸ hheld, hf]
    · simp [ConfigItem.change, hf]

theorem StartSettings.items_isTyped (settings : StartSettings) :
    ∀ item ∈ settings.items, item.IsTyped := by
  have helements {field : ConfigField} (hfield : field.width = .list) (what : String)
      (values : List String) :
      ∀ item ∈ values.map (ConfigItem.element field what), item.IsTyped := by
    rintro _ hitem
    obtain ⟨value, -, rfl⟩ := List.mem_map.mp hitem
    exact hfield
  simp only [items, List.forall_mem_cons, List.forall_mem_append]
  exact ⟨rfl, rfl, helements rfl _ _, helements rfl _ _, helements rfl _ _, trivial,
    fun _ h => absurd h List.not_mem_nil⟩

/-- What the fields hold when all items have been put into a record with empty lists. -/
theorem foldl_items (settings : StartSettings) {held : ConfigField → FieldContent}
    (hempty : ∀ f : ConfigField, f.width = .list → held f = .list []) (f : ConfigField) :
    settings.items.foldl ConfigItem.change held f =
      if f.width = .int ∨ f.width = .long then held f
      else (settings.content? f).getD (held f) := by
  simp only [StartSettings.items, List.foldl_cons, List.foldl_append, List.foldl_nil,
    foldl_elements, ConfigItem.change]
  have hpaths : held .moduleSearchPaths = .list [] := hempty _ rfl
  have hwarnings : held .warnoptions = .list [] := hempty _ rfl
  have hx : held .xoptions = .list [] := hempty _ rfl
  cases f <;> simp [ConfigField.width, StartSettings.content?, FieldContent.append, hpaths,
    hwarnings, hx]

/-- **A record that has been filled** holds what the settings ask.  A field of which they say
nothing holds what it held when the record was made. -/
theorem Fills.contents_settings {settings : StartSettings}
    (h : Fills l settings.items (Filling.setNumbers l settings.options record) s o)
    (hl : l.IsRegular) (hfits : l.Fits record)
    (hempty : ∀ f : ConfigField, f.width = .list → m.content l s record f = .list [])
    (hok : o.result = .ok ()) (hdoc : ∀ turn ∈ o.turns, turn.FillsAsDocumented m l)
    (f : ConfigField) :
    m.content l o.state o.record f = (settings.content? f).getD (m.content l s record f) := by
  have hnumbers := content_setNumbers (m := m) (s := s) hl settings hfits
  rw [h.contents hl settings.items_isTyped hok hdoc, foldl_items]
  · rw [hnumbers]
    split <;> rfl
  · intro f hf
    rw [hnumbers, if_neg (by simp [hf])]
    exact hempty f hf

end

/-! ## A whole initialisation -/

namespace EntryCall
variable {shape : AnswerShape}

/-- The call that makes a record. -/
def makesRecord : EntryCall shape → Bool
  | isolatedConfig _ => true
  | _ => false

/-- The call that clears a record. -/
def clearsRecord : EntryCall shape → Bool
  | clearConfig _ => true
  | _ => false

/-- The record that is handed over to the runtime. -/
def handed? : EntryCall shape → Option Words
  | initializeFromConfig record => some record
  | _ => none

end EntryCall

namespace Exchange

/-- The call that makes the record, and its answer. -/
abbrev making (l : Layout) (made : Words) : Exchange :=
  ⟨.isolatedConfig (Words.zero l.size), made⟩

/-- The call that clears the record. -/
abbrev clearing (record : Words) : Exchange := ⟨.clearConfig record, ()⟩

/-- The call that hands the record over, and its answer. -/
abbrev handing (record : Words) (status : Status) : Exchange :=
  ⟨.initializeFromConfig record, status⟩

end Exchange

section
variable {σ : Type} {version : UInt32} {l : Layout}

/-- What is done with a record once it has been filled, or could not be. -/
def handOver : Except RuntimeError Unit × Words → Dialogue (Except RuntimeError Status)
  | (.error e, filled) => .ask (.clearConfig filled) fun _ => .done (.error e)
  | (.ok (), filled) => .ask (.initializeFromConfig filled) fun status =>
    .ask (.clearConfig filled) fun _ => .done (.ok status)

theorem initialization_eq (settings : StartSettings) (hl : Layout.ofVersion? version = some l) :
    initialization version settings = .ask (.isolatedConfig (Words.zero l.size)) fun record =>
      ((Filling.fill l settings).run.run record).andThen handOver := by
  unfold initialization withConfiguration
  rw [hl]
  refine congrArg (Dialogue.ask _) (funext fun record => ?_)
  refine congrArg (Dialogue.andThen _) (funext ?_)
  rintro ⟨e | ⟨⟩, filled⟩ <;> rfl

/-- How an initialisation goes: the record is made, filled, handed over if it could be filled, and
cleared. -/
theorem initialization_cases (respond : Dialogue.Responder σ) (settings : StartSettings) (s : σ)
    (hl : Layout.ofVersion? version = some l) :
    ∃ made s₁ o, Fills l settings.items (Filling.setNumbers l settings.options made) s₁ o ∧
      ((∃ e s₂, o.result = .error e ∧
          ((initialization version settings).run respond s).1 = .error e ∧
          (initialization version settings).turns respond s =
            ⟨.making l made, s, s₁⟩ :: (o.turns ++ [⟨.clearing o.record, o.state, s₂⟩])) ∨
        (∃ status s₂ s₃, o.result = .ok () ∧
          ((initialization version settings).run respond s).1 = .ok status ∧
          (initialization version settings).turns respond s =
            ⟨.making l made, s, s₁⟩ :: (o.turns ++
              [⟨.handing o.record status, o.state, s₂⟩, ⟨.clearing o.record, s₂, s₃⟩]))) := by
  have hfills := fills_fill respond l settings (respond (.isolatedConfig (Words.zero l.size)) s).1
    (respond (.isolatedConfig (Words.zero l.size)) s).2
  refine ⟨_, _, _, hfills, ?_⟩
  rw [initialization_eq settings hl]
  simp only [Dialogue.run, Dialogue.turns, Filling.run_then, Filling.turns_then]
  generalize Filling.outcome respond (Filling.fill l settings) _ _ = o
  rcases o with ⟨turns, e | ⟨⟩, filled, s'⟩
  · exact .inl ⟨e, _, rfl, rfl, rfl⟩
  · exact .inr ⟨_, _, _, rfl, rfl, rfl⟩

end

/-! ## What an initialisation does -/

/-- What the settings ask to be put into a record, up to the first item that cannot be passed. -/
def StartSettings.requests (l : Layout) (settings : StartSettings) : List ConfigRequest :=
  (passableItems settings.items).flatMap (ConfigItem.requests l)

/-- Every call that fills the record succeeds. -/
def FillsWell (t : List Exchange) : Prop := ∀ e ∈ t, e.call.fills = true → e.fails = false

/-- The records that are handed over to the runtime. -/
def handedRecords (t : List Exchange) : List Words := t.filterMap (·.call.handed?)

section
variable {σ : Type}

/-- The record that is handed over holds what the settings ask, if the entry points do what is
documented of them.  A field of which the settings say nothing holds what it held when the
record was made. -/
def HandsOverRecord (l : Layout) (settings : StartSettings) (turns : List (Turn σ))
    (status : Status) : Prop :=
  ∃ made fillings handed cleared record₀ record, turns = made :: (fillings ++ [handed, cleared]) ∧
    made.exchange = ⟨.isolatedConfig (Words.zero l.size), record₀⟩ ∧
    handed.exchange = ⟨.initializeFromConfig record, status⟩ ∧
    ∀ {κ : Type} (m : RecordMemory σ κ), (∀ turn ∈ turns, turn.FillsAsDocumented m l) →
      ∀ f, m.content l handed.before record f =
        (settings.content? f).getD (m.content l made.after record₀ f)

/-- What is known of an initialisation with a record of some layout, whatever is answered. -/
structure ConfigurationRun (l : Layout) (settings : StartSettings) (turns : List (Turn σ))
    (result : Except RuntimeError Status) : Prop where
  /-- The record is made by the first call and cleared by the last, and by no other. -/
  framed : ∃ made middle cleared, turns.map (·.exchange) = made :: (middle ++ [cleared]) ∧
    made.call.makesRecord = true ∧ cleared.call.clearsRecord = true ∧
    ∀ e ∈ middle, e.call.makesRecord = false ∧ e.call.clearsRecord = false
  /-- Every text that is decoded is freed once. -/
  frees : FreesTexts (turns.map (·.exchange))
  /-- What is asked for is what the settings ask, in order, as far as it goes. -/
  asks : requests (turns.map (·.exchange)) <+: settings.requests l
  /-- If a call fails that fills the record, nothing is handed over. -/
  refused : ¬ FillsWell (turns.map (·.exchange)) →
    (∃ fault, result = .error (.configuration fault)) ∧
      handedRecords (turns.map (·.exchange)) = []
  /-- If none fails, but a text cannot be passed, all that comes before it has been asked for. -/
  stopped : ∀ text, FillsWell (turns.map (·.exchange)) → firstNul? settings.texts = some text →
    result = .error (.nulInText text) ∧
      requests (turns.map (·.exchange)) = settings.requests l ∧
      handedRecords (turns.map (·.exchange)) = []
  /-- Otherwise everything has been asked for, and a record is handed over. -/
  handed : FillsWell (turns.map (·.exchange)) → firstNul? settings.texts = none →
    ∃ status, result = .ok status ∧
      requests (turns.map (·.exchange)) = settings.requests l ∧
      (handedRecords (turns.map (·.exchange))).length = 1 ∧
      HandsOverRecord l settings turns status

end

theorem Exchange.of_fills {e : Exchange} (h : e.call.fills = true) :
    e.call.makesRecord = false ∧ e.call.clearsRecord = false ∧ e.call.handed? = none := by
  obtain ⟨c, answer⟩ := e
  cases c <;> first | exact ⟨rfl, rfl, rfl⟩ | cases h

theorem Exchange.of_not_fills {e : Exchange} (h : e.call.fills = false) :
    e.decoded? = none ∧ e.call.freed? = none ∧ e.call.request? = none := by
  obtain ⟨c, answer⟩ := e
  cases c <;> first | exact ⟨rfl, rfl, rfl⟩ | cases h

/-! ### What is said around a filling -/

section
variable {first : Exchange} {t last : List Exchange}

theorem FreesTexts.framed (h : FreesTexts t) (hfirst : first.call.fills = false)
    (hlast : ∀ e ∈ last, e.call.fills = false) : FreesTexts (first :: (t ++ last)) := by
  have hquiet {e : Exchange} (he : e.call.fills = false) :=
    (Exchange.of_not_fills he).imp_right And.left
  have hbefore : FreesTexts [first] := .of_forall (List.forall_mem_singleton.mpr (hquiet hfirst))
  exact hbefore.append (h.append (.of_forall fun e he => hquiet (hlast e he)))

theorem requests_framed (hfirst : first.call.fills = false)
    (hlast : ∀ e ∈ last, e.call.fills = false) :
    requests (first :: (t ++ last)) = requests t := by
  have hfirst' := (Exchange.of_not_fills hfirst).2.2
  have hlast' : requests last = [] :=
    List.filterMap_eq_nil_iff.mpr fun e he => (Exchange.of_not_fills (hlast e he)).2.2
  have hcons : requests (first :: (t ++ last)) = requests (t ++ last) :=
    List.filterMap_cons_none hfirst'
  rw [hcons, requests_append, hlast', List.append_nil]

theorem fillsWell_framed (hfirst : first.call.fills = false)
    (hlast : ∀ e ∈ last, e.call.fills = false) (ht : ∀ e ∈ t, e.call.fills = true) :
    FillsWell (first :: (t ++ last)) ↔ ∀ e ∈ t, e.fails = false := by
  constructor
  · exact fun h e he => h e (by simp [he]) (ht e he)
  · intro h e he hfills
    rcases List.mem_cons.mp he with rfl | he
    · rw [hfirst] at hfills
      cases hfills
    · rcases List.mem_append.mp he with he | he
      · exact h e he
      · rw [hlast e he] at hfills
        cases hfills

theorem handedRecords_framed (hnone : first.call.handed? = none)
    (ht : ∀ e ∈ t, e.call.fills = true) :
    handedRecords (first :: (t ++ last)) = handedRecords last := by
  have ht' : handedRecords t = [] :=
    List.filterMap_eq_nil_iff.mpr fun e he => (Exchange.of_fills (ht e he)).2.2
  have hcons : handedRecords (first :: (t ++ last)) = handedRecords (t ++ last) :=
    List.filterMap_cons_none hnone
  rw [hcons, handedRecords, List.filterMap_append]
  exact (congrArg (· ++ _) ht').trans (List.nil_append _)

end

/-! ### The two ways in which an initialisation ends -/

section
variable {σ : Type} {l : Layout} {settings : StartSettings} {made : Words} {s s₁ : σ}
  {o : FillingOutcome σ}

theorem ConfigurationRun.of_error {e : RuntimeError} {s₂ : σ}
    (h : Fills l settings.items (Filling.setNumbers l settings.options made) s₁ o)
    (herror : o.result = .error e) :
    ConfigurationRun l settings
      (⟨.making l made, s, s₁⟩ :: (o.turns ++ [⟨.clearing o.record, o.state, s₂⟩])) (.error e) := by
  have hexchanges :
      (⟨.making l made, s, s₁⟩ :: (o.turns ++ [⟨.clearing o.record, o.state, s₂⟩])).map
        (Turn.exchange) = .making l made :: (o.exchanges ++ [.clearing o.record]) := by
    simp [FillingOutcome.exchanges]
  have hlast : ∀ e ∈ [Exchange.clearing o.record], e.call.fills = false := by simp [EntryCall.fills]
  have hends := h.of_error herror
  rw [settings.texts_items] at hends
  constructor <;> rw [hexchanges]
  · refine ⟨.making l made, o.exchanges, .clearing o.record, rfl, rfl, rfl, fun e he => ?_⟩
    exact ⟨(Exchange.of_fills (h.fills e he)).1, (Exchange.of_fills (h.fills e he)).2.1⟩
  · exact h.frees.framed rfl hlast
  · rw [requests_framed rfl hlast]
    rcases hends with ⟨_, -, -, -, hrequests⟩ | ⟨_, -, -, hrequests⟩
    · exact hrequests ▸ List.prefix_refl _
    · exact hrequests
  · rw [fillsWell_framed rfl hlast h.fills, handedRecords_framed rfl h.fills]
    intro hfails
    rcases hends with ⟨_, -, -, hquiet, -⟩ | ⟨fault, rfl, -, -⟩
    · exact absurd hquiet hfails
    · exact ⟨⟨fault, rfl⟩, rfl⟩
  · rw [fillsWell_framed rfl hlast h.fills, handedRecords_framed rfl h.fills,
      requests_framed rfl hlast]
    intro text hquiet hnul
    rcases hends with ⟨text', hnul', rfl, -, hrequests⟩ | ⟨_, -, ⟨e, he, hfails⟩, -⟩
    · cases hnul.symm.trans hnul'
      exact ⟨rfl, hrequests, rfl⟩
    · cases (hquiet e he).symm.trans hfails
  · rw [fillsWell_framed rfl hlast h.fills]
    intro hquiet hnul
    rcases hends with ⟨_, hnul', -⟩ | ⟨_, -, ⟨e, he, hfails⟩, -⟩
    · cases hnul.symm.trans hnul'
    · cases (hquiet e he).symm.trans hfails

theorem ConfigurationRun.of_ok {status : Status} {s₂ s₃ : σ} (hl : l.IsRegular)
    (h : Fills l settings.items (Filling.setNumbers l settings.options made) s₁ o)
    (hok : o.result = .ok ()) :
    ConfigurationRun l settings (⟨.making l made, s, s₁⟩ :: (o.turns ++
      [⟨.handing o.record status, o.state, s₂⟩, ⟨.clearing o.record, s₂, s₃⟩])) (.ok status) := by
  have hexchanges : (⟨.making l made, s, s₁⟩ :: (o.turns ++
      [⟨.handing o.record status, o.state, s₂⟩, ⟨.clearing o.record, s₂, s₃⟩])).map
        (Turn.exchange) =
      .making l made :: (o.exchanges ++ [.handing o.record status, .clearing o.record]) := by
    simp [FillingOutcome.exchanges]
  have hlast : ∀ e ∈ [Exchange.handing o.record status, .clearing o.record],
      e.call.fills = false := by
    simp [EntryCall.fills]
  obtain ⟨hquiet, hpassable, hrequests⟩ := h.of_ok hok
  rw [settings.texts_items] at hpassable
  constructor <;> rw [hexchanges]
  · refine ⟨.making l made, o.exchanges ++ [.handing o.record status], .clearing o.record, ?_, rfl,
      rfl, ?_⟩
    · rw [List.append_assoc]
      rfl
    · intro e he
      rcases List.mem_append.mp he with he | he
      · exact ⟨(Exchange.of_fills (h.fills e he)).1, (Exchange.of_fills (h.fills e he)).2.1⟩
      · rw [List.mem_singleton.mp he]
        exact ⟨rfl, rfl⟩
  · exact h.frees.framed rfl hlast
  · rw [requests_framed rfl hlast]
    exact hrequests ▸ List.prefix_refl _
  · rw [fillsWell_framed rfl hlast h.fills]
    exact fun hfails => absurd hquiet hfails
  · intro text _ hnul
    cases hpassable.symm.trans hnul
  · rw [requests_framed rfl hlast, handedRecords_framed rfl h.fills]
    refine fun _ _ => ⟨status, rfl, hrequests, rfl, ?_⟩
    refine ⟨_, o.turns, _, _, made, o.record, rfl, rfl, rfl, fun m hdoc f => ?_⟩
    obtain ⟨hmade, hrest⟩ := List.forall_mem_cons.mp hdoc
    obtain ⟨hlength, hempty⟩ : made.length = (Words.zero l.size).length ∧
        ∀ f ∈ ConfigField.all, f.width = .list → m.content l s₁ made f = .list [] :=
      hmade (.makes (Words.zero l.size) made) rfl
    have hfits : l.Fits made := by
      unfold Layout.Fits
      rw [hlength]
      exact l.fits_zero
    exact h.contents_settings hl hfits (fun f => hempty f f.mem_all) hok
      (List.forall_mem_append.mp hrest).1 f

end

/-- **A configuration is built faithfully and in balance.**  A version that is not supported is
reported, and nothing is called.  With any other, whatever the settings are and whatever the
entry points answer, the record is made once and cleared once, as the last call; every text
that is decoded is freed once; a text that cannot be passed is reported when everything before
it has been put into the record, and nothing after it; and if all entry points succeed and all
texts can be passed, the record that is handed over holds what the settings ask. -/
theorem configuration_is_faithful {σ : Type} (version : UInt32) (settings : StartSettings)
    (respond : Dialogue.Responder σ) (s : σ) :
    (Layout.ofVersion? version = none →
      (initialization version settings).turns respond s = [] ∧
        ((initialization version settings).run respond s).1 =
          .error (.unsupportedVersion version)) ∧
      ∀ l, Layout.ofVersion? version = some l →
        ConfigurationRun l settings ((initialization version settings).turns respond s)
          ((initialization version settings).run respond s).1 := by
  constructor
  · intro hversion
    unfold initialization withConfiguration
    rw [hversion]
    exact ⟨rfl, rfl⟩
  · intro l hl
    obtain ⟨made, s₁, o, hfills, hends⟩ := initialization_cases respond settings s hl
    rcases hends with ⟨e, s₂, herror, hresult, hturns⟩ | ⟨status, s₂, s₃, hok, hresult, hturns⟩
    · rw [hturns, hresult]
      exact .of_error hfills herror
    · rw [hturns, hresult]
      exact .of_ok (Layout.isRegular_of_ofVersion? hl) hfills hok

/-! ## A runtime that keeps what it is told -/

/-- The texts and the lists of a record, by their addresses. -/
structure SampleTexts where
  texts : List (Nat × String)
  lists : List (Nat × List String)
  deriving DecidableEq

/-- A small memory: the next address, what has been decoded, and what belongs to a record. -/
structure SampleMemory where
  next : Nat
  decoded : List (Pointer × String)
  owned : SampleTexts

namespace SampleMemory

/-- A text is behind the address in its field, a list behind the address after its length. -/
def reading : RecordMemory SampleMemory SampleTexts where
  owned := owned
  text kept words := kept.texts.lookup (words.getD 0 0).toNat
  list kept words := (kept.lists.lookup (words.getD 2 0).toNat).getD []
  decoded s p := s.decoded.lookup p

/-- Keeps a list, and stores its length and its address in the record. -/
def keepList (record : Words) (offset : Nat) (values : List String) (s : SampleMemory) :
    Words × SampleMemory :=
  (Words.setLong (Words.setLong record offset values.length.toUInt64) (offset + 8)
      s.next.toUInt64,
    { s with next := s.next + 1, owned.lists := (s.next, values) :: s.owned.lists })

/-- Answers the calls that configure a runtime of version 3.12, and nothing else of interest. -/
def respond : Dialogue.Responder SampleMemory
  | _, .isolatedConfig record, s => (List.replicate record.length 0, s)
  | _, .setString record offset value, s =>
    ((.success, Words.setLong record offset s.next.toUInt64),
      { s with next := s.next + 1, owned.texts := (s.next, value) :: s.owned.texts })
  | _, .decodeLocale value, s =>
    (some s.next, { s with next := s.next + 1, decoded := (s.next, value) :: s.decoded })
  | _, .appendText record offset p, s =>
    let address := (record.getD (offset / 4 + 2) 0).toNat
    let (record, s) := keepList record offset
      ((s.owned.lists.lookup address).getD [] ++ (s.decoded.lookup p).toList) s
    ((.success, record), s)
  | _, .freeText p, s => ((), { s with decoded := s.decoded.filter (·.1 != p) })
  | _, .setArgv record values, s =>
    let (record, s) := keepList record (Layout.v312.offset .argv) values s
    ((.success, record), s)
  | .done, _, s => ((), s)
  | .status, _, s => (.success, s)
  | .statusAndRecord, _, s => ((.success, []), s)
  | .record, _, s => ([], s)
  | .preConfig, _, s => (default, s)
  | .pointer, _, s => (none, s)
  | .number, _, s => (0, s)

end SampleMemory

/-- Settings with an option that is given twice. -/
def repetitiveSettings : StartSettings :=
  ⟨⟨"/a"⟩, ⟨"/h"⟩, [⟨"/h"⟩], ["a", "b"],
    { RuntimeOptions.none with warnOptions := ["w", "w"], hashSeed := some 7 }⟩

/-- What is said when version 3.12 is initialised with them. -/
def repetitiveTurns : List (Turn SampleMemory) :=
  (initialization 312 repetitiveSettings).turns SampleMemory.respond ⟨1, [], ⟨[], []⟩⟩

/-- The general statement for them: the record that is handed over holds the option twice. -/
theorem configuration_is_faithful_repetitive :
    Layout.ofVersion? 312 = some .v312 ∧ firstNul? repetitiveSettings.texts = none ∧
      FillsWell (repetitiveTurns.map (·.exchange)) ∧
      (∀ turn ∈ repetitiveTurns, turn.FillsAsDocumented SampleMemory.reading .v312) ∧
      ∃ handed ∈ repetitiveTurns, ∃ record, handed.exchange.call.handed? = some record ∧
        SampleMemory.reading.content .v312 handed.before record .warnoptions =
          .list ["w", "w"] := by
  have hversion : Layout.ofVersion? 312 = some .v312 := rfl
  have hnul : firstNul? repetitiveSettings.texts = none := by decide +kernel
  have hwell : FillsWell (repetitiveTurns.map (·.exchange)) := by
    unfold FillsWell
    decide +kernel
  have hdocumented :
      ∀ turn ∈ repetitiveTurns, turn.FillsAsDocumented SampleMemory.reading .v312 := by
    decide +kernel
  have hrun := (configuration_is_faithful 312 repetitiveSettings SampleMemory.respond
    ⟨1, [], ⟨[], []⟩⟩).2 .v312 hversion
  obtain ⟨_, -, -, -, made, fillings, handed, cleared, _, record, hturns, -, hhanded, hholds⟩ :=
    hrun.handed hwell hnul
  have hin : handed ∈ repetitiveTurns := by
    unfold repetitiveTurns
    rw [hturns]
    simp
  refine ⟨hversion, hnul, hwell, hdocumented, handed, hin, record, ?_, ?_⟩
  · rw [hhanded]
    rfl
  · exact hholds SampleMemory.reading hdocumented .warnoptions

end Stowage
