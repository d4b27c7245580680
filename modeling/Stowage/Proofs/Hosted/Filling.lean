import Stowage.Proofs.Hosted.Session
import Stowage.Proofs.Hosted.Layouts

/-!
# Filling a record

What the settings of a start put into a record by calls is a list of items
(`StartSettings.items`): two texts, then the elements of three lists, then the command line.
Filling a record is putting the items into it one by one (`fill_eq`).

How one item is put is said once (`ConfigItem.Puts`), whatever is answered: nothing is called
for an item with a text that cannot be passed, and every other item takes one call, or three for
an element, of which the last frees what the first has brought.  A whole filling (`Fills`) stops
at the first item that fails.  Everything else about fillings is read off from these two:
which texts are freed (`Fills.frees`), what has been asked for, and what comes of it
(`Fills.of_ok`, `Fills.of_error`).
-/

namespace Stowage

/-! ## Items -/

/-- What is put into a record at one time. -/
inductive ConfigItem where
  /-- A text that is set. -/
  | text (field : ConfigField) (what value : String)
  /-- A text that is added to a list. -/
  | element (field : ConfigField) (what value : String)
  /-- The command line. -/
  | arguments (values : List String)

/-- The first text that cannot be passed in a call. -/
def firstNul? (texts : List String) : Option String := texts.find? (·.toList.contains '\x00')

theorem firstNul?_append (texts more : List String) :
    firstNul? (texts ++ more) = (firstNul? texts).or (firstNul? more) :=
  List.find?_append

namespace ConfigItem

/-- The texts of an item, in the order in which they are looked at. -/
def texts : ConfigItem → List String
  | text _ _ value => [value]
  | element _ _ value => [value]
  | arguments values => values

/-- All texts of an item can be passed in calls. -/
def isPassable (item : ConfigItem) : Bool := (firstNul? item.texts).isNone

/-- Puts an item into the record. -/
def put (l : Layout) : ConfigItem → Filling Unit
  | text field what value => Filling.setString l field what value
  | element field what value => Filling.appendText l field what value
  | arguments values => do
    let args ← values.mapM Filling.pass
    let status ← Filling.askOnRecord (.setArgv · args)
    Filling.check "argv" status

/-- Puts items into the record, one by one. -/
def putAll (l : Layout) : List ConfigItem → Filling Unit
  | [] => pure ()
  | item :: rest => do
    item.put l
    putAll l rest

theorem putAll_append (l : Layout) (items more : List ConfigItem) :
    putAll l (items ++ more) = (do putAll l items; putAll l more) := by
  induction items with
  | nil => rfl
  | cons item rest ih => simp only [List.cons_append, putAll, ih, bind_assoc]

theorem putAll_elements (l : Layout) (field : ConfigField) (what : String)
    (values : List String) :
    putAll l (values.map (element field what)) = Filling.appendAll l field what values := by
  induction values with
  | nil => rfl
  | cons value rest ih => exact bind_congr fun _ => ih

end ConfigItem

namespace StartSettings

/-- What the settings put into a record by calls. -/
def items (s : StartSettings) : List ConfigItem :=
  .text .programName "program_name" s.programName.text :: .text .home "home" s.home.text ::
    ((s.searchPaths.map Path.text).map (.element .moduleSearchPaths "module_search_paths") ++
      (s.options.warnOptions.map (.element .warnoptions "warnoptions") ++
        (s.options.xOptions.map (.element .xoptions "xoptions") ++ [.arguments s.argv])))

/-- All texts of the settings, in the order in which they are put into a record. -/
def texts (s : StartSettings) : List String :=
  s.programName.text :: s.home.text :: (s.searchPaths.map Path.text ++
    (s.options.warnOptions ++ (s.options.xOptions ++ s.argv)))

theorem texts_items (s : StartSettings) : s.items.flatMap ConfigItem.texts = s.texts := by
  have helements (field : ConfigField) (what : String) (values : List String) :
      (values.map (ConfigItem.element field what)).flatMap ConfigItem.texts = values := by
    induction values with
    | nil => rfl
    | cons value rest ih => exact congrArg (List.cons value) ih
  simp only [items, texts, List.flatMap_cons, List.flatMap_append, helements, List.flatMap_nil,
    ConfigItem.texts, List.append_nil]
  rfl

end StartSettings

namespace Filling

/-- **Filling a record** is writing its numbers and putting the items into it. -/
theorem fill_eq (l : Layout) (s : StartSettings) : fill l s = (do
    modify (setNumbers l s.options)
    ConfigItem.putAll l s.items) := by
  simp only [StartSettings.items, ConfigItem.putAll, ConfigItem.putAll_append,
    ConfigItem.putAll_elements, bind_pure_unit]
  rfl

/-! ## Steps of the filling -/

/-- The judgement on a step by its status. -/
def verdict (what : String) (status : Status) : Except RuntimeError Unit :=
  if status.isOk then .ok () else .error (.configuration (.refused what status))

theorem check_eq (what : String) (status : Status) :
    check what status = fun record => .done (verdict what status, record) := by
  unfold check verdict
  split <;> rfl

theorem pass_eq (text : String) : pass text = match firstNul? [text] with
    | some text => throw (.nulInText text)
    | none => pure text := by
  unfold pass passable firstNul?
  cases h : text.toList.contains '\x00' <;> simp only [List.find?_cons, h] <;> rfl

/-- Texts are passed up to the first that cannot be passed. -/
theorem mapM_pass (texts : List String) : texts.mapM pass = match firstNul? texts with
    | some text => throw (.nulInText text)
    | none => pure texts := by
  rw [← List.mapM'_eq_mapM]
  induction texts with
  | nil => rfl
  | cons text rest ih =>
    have hfirst : firstNul? (text :: rest) = (firstNul? [text]).or (firstNul? rest) :=
      firstNul?_append [text] rest
    rw [List.mapM'_cons, ih, pass_eq, hfirst]
    cases firstNul? [text] with
    | some nul => rfl
    | none => cases firstNul? rest <;> rfl

end Filling

/-! ## What comes of a part of the filling -/

/-- What comes of a part of the filling: what has been said, the result, and the record and the
state of the runtime that are left. -/
structure FillingOutcome (σ : Type) where
  turns : List (Turn σ)
  result : Except RuntimeError Unit
  record : Words
  state : σ

/-- What comes of a part that has succeeded and of the part that follows it. -/
def FillingOutcome.andThen {σ : Type} (o more : FillingOutcome σ) : FillingOutcome σ :=
  { more with turns := o.turns ++ more.turns }

namespace Filling

variable {σ : Type} (respond : Dialogue.Responder σ)

/-- What comes of a part of the filling when somebody answers. -/
def outcome (work : Filling Unit) (record : Words) (s : σ) : FillingOutcome σ :=
  let talk := work.run.run record
  let ended := talk.run respond s
  ⟨talk.turns respond s, ended.1.1, ended.1.2, ended.2⟩

/-- What follows the filling follows its outcome. -/
theorem turns_then {α : Type} (work : Filling Unit)
    (more : Except RuntimeError Unit × Words → Dialogue α) (record : Words) (s : σ) :
    ((work.run.run record).andThen more).turns respond s =
      let o := outcome respond work record s
      o.turns ++ (more (o.result, o.record)).turns respond o.state :=
  Dialogue.turns_andThen respond (work.run.run record) more s

theorem run_then {α : Type} (work : Filling Unit)
    (more : Except RuntimeError Unit × Words → Dialogue α) (record : Words) (s : σ) :
    ((work.run.run record).andThen more).run respond s =
      let o := outcome respond work record s
      (more (o.result, o.record)).run respond o.state :=
  Dialogue.run_andThen respond (work.run.run record) more s

/-- What is said after a part of the filling, if another part follows it. -/
def follow (next : Filling Unit) :
    Except RuntimeError Unit × Words → Dialogue (Except RuntimeError Unit × Words)
  | (.ok (), record) => next.run.run record
  | (.error e, record) => .done (.error e, record)

theorem run_bind (work next : Filling Unit) (record : Words) :
    (work >>= fun _ => next).run.run record = (work.run.run record).andThen next.follow := by
  refine congrArg (Dialogue.andThen (work.run.run record)) (funext ?_)
  rintro ⟨e | ⟨⟩, record'⟩ <;> rfl

/-- What comes of one part after another. -/
theorem outcome_bind (work next : Filling Unit) (record : Words) (s : σ) :
    outcome respond (work >>= fun _ => next) record s =
      let first := outcome respond work record s
      match first.result with
      | .error _ => first
      | .ok () => first.andThen (outcome respond next first.record first.state) := by
  have hbind : outcome respond (work >>= fun _ => next) record s =
      let talk := (work.run.run record).andThen next.follow
      let ended := talk.run respond s
      ⟨talk.turns respond s, ended.1.1, ended.1.2, ended.2⟩ := by
    rw [← run_bind]
    rfl
  rw [hbind]
  simp only [turns_then, run_then]
  generalize outcome respond work record s = first
  rcases first with ⟨turns, e | ⟨⟩, record', s'⟩
  · simp [follow, Dialogue.run, Dialogue.turns]
  · rfl

end Filling

/-! ## Putting items -/

section
variable {σ : Type} {l : Layout} {record : Words} {s : σ} {item : ConfigItem}
  {items : List ConfigItem} {o : FillingOutcome σ}

/-- How an item is put into a record, whatever is answered. -/
inductive ConfigItem.Puts (l : Layout) :
    ConfigItem → Words → σ → FillingOutcome σ → Prop where
  /-- Nothing is called for an item that cannot be passed. -/
  | stopped {item record s text} (hnul : firstNul? item.texts = some text) :
    Puts l item record s ⟨[], .error (.nulInText text), record, s⟩
  | text {field what value record s answer s'} (hpassable : firstNul? [value] = none) :
    Puts l (.text field what value) record s
      ⟨[⟨⟨.setString record (l.offset field) value, answer⟩, s, s'⟩],
        Filling.verdict what answer.1, answer.2, s'⟩
  | undecoded {field what value record s s'} (hpassable : firstNul? [value] = none) :
    Puts l (.element field what value) record s
      ⟨[⟨⟨.decodeLocale value, none⟩, s, s'⟩],
        .error (.configuration (.undecodable what value)), record, s'⟩
  /-- The decoded text is freed whether or not it could be added. -/
  | element {field what value text record s s₁ answer s₂ s₃}
      (hpassable : firstNul? [value] = none) :
    Puts l (.element field what value) record s
      ⟨[⟨⟨.decodeLocale value, some text⟩, s, s₁⟩,
          ⟨⟨.appendText record (l.offset field) text, answer⟩, s₁, s₂⟩,
          ⟨⟨.freeText text, ()⟩, s₂, s₃⟩],
        Filling.verdict what answer.1, answer.2, s₃⟩
  | arguments {values record s answer s'} (hpassable : firstNul? values = none) :
    Puts l (.arguments values) record s
      ⟨[⟨⟨.setArgv record values, answer⟩, s, s'⟩],
        Filling.verdict "argv" answer.1, answer.2, s'⟩

namespace ConfigItem

theorem put_of_nul {text : String} (h : firstNul? item.texts = some text) :
    item.put l = throw (.nulInText text) := by
  cases item with
  | text field what value =>
    change Filling.pass value >>= _ = _
    rw [Filling.pass_eq, show firstNul? [value] = some text from h]
    rfl
  | element field what value =>
    change Filling.pass value >>= _ = _
    rw [Filling.pass_eq, show firstNul? [value] = some text from h]
    rfl
  | arguments values =>
    change values.mapM Filling.pass >>= _ = _
    rw [Filling.mapM_pass, show firstNul? values = some text from h]
    rfl

theorem put_text {field : ConfigField} {what value : String} (h : firstNul? [value] = none) :
    (text field what value).put l = fun record =>
      .ask (.setString record (l.offset field) value) fun answer =>
        .done (Filling.verdict what answer.1, answer.2) := by
  change Filling.pass value >>= _ = _
  simp only [Filling.pass_eq, h, Filling.check_eq]
  rfl

theorem put_element {field : ConfigField} {what value : String} (h : firstNul? [value] = none) :
    (element field what value).put l = fun record =>
      .ask (.decodeLocale value) fun decoded => match decoded with
        | none => .done (.error (.configuration (.undecodable what value)), record)
        | some p => .ask (.appendText record (l.offset field) p) fun answer =>
          .ask (.freeText p) fun _ => .done (Filling.verdict what answer.1, answer.2) := by
  change Filling.pass value >>= _ = _
  simp only [Filling.pass_eq, h, Filling.check_eq]
  funext record
  refine congrArg (Dialogue.ask _) (funext fun decoded => ?_)
  cases decoded <;> rfl

theorem put_arguments {values : List String} (h : firstNul? values = none) :
    (arguments values).put l = fun record =>
      .ask (.setArgv record values) fun answer =>
        .done (Filling.verdict "argv" answer.1, answer.2) := by
  change values.mapM Filling.pass >>= _ = _
  simp only [Filling.mapM_pass, h, Filling.check_eq]
  rfl

/-- **What putting an item does**. -/
theorem puts_put (respond : Dialogue.Responder σ) (l : Layout) (item : ConfigItem)
    (record : Words) (s : σ) :
    item.Puts l record s (Filling.outcome respond (item.put l) record s) := by
  cases hnul : firstNul? item.texts with
  | some text =>
    rw [put_of_nul hnul]
    exact .stopped hnul
  | none =>
    cases item with
    | text field what value =>
      rw [put_text hnul]
      exact .text hnul
    | element field what value =>
      rw [put_element hnul]
      simp only [Filling.outcome, ExceptT.run, StateT.run, Dialogue.run, Dialogue.turns]
      generalize respond (.decodeLocale value) s = answered
      rcases answered with ⟨_ | p, s₁⟩
      · exact .undecoded hnul
      · exact .element hnul
    | arguments values =>
      have hpassable : firstNul? values = none := hnul
      rw [put_arguments hpassable]
      exact .arguments hpassable

end ConfigItem

/-! ## Whole fillings -/

/-- How items are put into a record one by one, up to the first that fails. -/
inductive Fills (l : Layout) : List ConfigItem → Words → σ → FillingOutcome σ → Prop where
  | done (record : Words) (s : σ) : Fills l [] record s ⟨[], .ok (), record, s⟩
  | stops {item : ConfigItem} {rest : List ConfigItem} {record : Words} {s : σ}
      {o : FillingOutcome σ} {e : RuntimeError} (hput : item.Puts l record s o)
      (hfailed : o.result = .error e) : Fills l (item :: rest) record s o
  | goes {item : ConfigItem} {rest : List ConfigItem} {record : Words} {s : σ}
      {o more : FillingOutcome σ} (hput : item.Puts l record s o) (hok : o.result = .ok ())
      (hrest : Fills l rest o.record o.state more) :
    Fills l (item :: rest) record s (o.andThen more)

theorem fills_putAll (respond : Dialogue.Responder σ) (l : Layout) (items : List ConfigItem)
    (record : Words) (s : σ) :
    Fills l items record s (Filling.outcome respond (ConfigItem.putAll l items) record s) := by
  induction items generalizing record s with
  | nil => exact .done record s
  | cons item rest ih =>
    have hput := item.puts_put respond l record s
    rw [ConfigItem.putAll, Filling.outcome_bind]
    cases hresult : (Filling.outcome respond (item.put l) record s).result with
    | error e =>
      simp only [hresult]
      exact .stops hput hresult
    | ok =>
      simp only [hresult]
      exact .goes hput hresult (ih _ _)

/-- **What filling a record does**, whatever is answered. -/
theorem fills_fill (respond : Dialogue.Responder σ) (l : Layout) (settings : StartSettings)
    (record : Words) (s : σ) :
    Fills l settings.items (Filling.setNumbers l settings.options record) s
      (Filling.outcome respond (Filling.fill l settings) record s) := by
  rw [Filling.fill_eq]
  exact fills_putAll respond l settings.items _ s

end

/-! ## Which calls are made -/

/-- A call that fills a record, or frees what has been decoded for that. -/
def EntryCall.fills {shape : AnswerShape} : EntryCall shape → Bool
  | setString .. | decodeLocale _ | appendText .. | freeText _ | setArgv .. => true
  | _ => false

/-- The text that has been decoded, unless it could not be. -/
def Exchange.decoded? : Exchange → Option Pointer
  | @mk _ (.decodeLocale _) answer => answer
  | _ => none

/-- The text that a call frees. -/
def EntryCall.freed? {shape : AnswerShape} : EntryCall shape → Option Pointer
  | freeText text => some text
  | _ => none

/-- Every decoded text is freed once, before another one is decoded or freed, and nothing else is
freed. -/
structure FreesTexts (t : List Exchange) : Prop where
  balanced : ∀ p, t.countP (·.decoded? == some p) = t.countP (·.call.freed? == some p)
  soon : ∀ before e later p, t = before ++ e :: later → e.decoded? = some p →
    ∃ meanwhile free rest, later = meanwhile ++ free :: rest ∧ free.call.freed? = some p ∧
      ∀ f ∈ meanwhile, f.decoded? = none ∧ f.call.freed? = none

namespace FreesTexts

/-- Where nothing is decoded and nothing is freed, nothing needs to be. -/
theorem of_forall {t : List Exchange} (h : ∀ e ∈ t, e.decoded? = none ∧ e.call.freed? = none) :
    FreesTexts t where
  balanced p := by
    rw [List.countP_eq_zero.mpr fun e he => by simp [(h e he).1],
      List.countP_eq_zero.mpr fun e he => by simp [(h e he).2]]
  soon := by
    rintro before e later p rfl hdecoded
    rw [(h e (by simp)).1] at hdecoded
    cases hdecoded

/-- A text is decoded and then freed. -/
theorem of_freed {first free : Exchange} {meanwhile : List Exchange} {p : Pointer}
    (hfirst : first.decoded? = some p ∧ first.call.freed? = none)
    (hmeanwhile : ∀ e ∈ meanwhile, e.decoded? = none ∧ e.call.freed? = none)
    (hfree : free.decoded? = none ∧ free.call.freed? = some p) :
    FreesTexts (first :: (meanwhile ++ [free])) where
  balanced q := by
    have hquiet := (of_forall hmeanwhile).balanced q
    simp only [List.countP_cons, List.countP_append, List.countP_nil, hfirst, hfree, hquiet]
    simp only [Option.none_beq_some, Bool.false_eq_true, if_false]
    omega
  soon := by
    intro before e later q heq hdecoded
    cases before with
    | nil =>
      obtain ⟨rfl, rfl⟩ := List.cons.inj heq
      rw [hfirst.1] at hdecoded
      exact ⟨meanwhile, free, [], rfl, hfree.2.trans hdecoded, hmeanwhile⟩
    | cons _ before =>
      -- nothing else is decoded
      have hin : e ∈ meanwhile ++ [free] := (List.cons.inj heq).2 ▸ by simp
      have hnone : e.decoded? = none := by
        rcases List.mem_append.mp hin with hin | hin
        · exact (hmeanwhile e hin).1
        · exact List.mem_singleton.mp hin ▸ hfree.1
      rw [hnone] at hdecoded
      cases hdecoded

theorem append {t more : List Exchange} (h : FreesTexts t) (hmore : FreesTexts more) :
    FreesTexts (t ++ more) where
  balanced p := by rw [List.countP_append, List.countP_append, h.balanced, hmore.balanced]
  soon := by
    intro before e later p heq hdecoded
    rcases List.append_eq_append_iff.mp heq with ⟨gap, rfl, hlater⟩ | ⟨gap, rfl, hlater⟩
    · exact hmore.soon gap e later p hlater hdecoded
    · cases gap with
      | nil => exact hmore.soon [] e later p hlater.symm hdecoded
      | cons first gap =>
        obtain ⟨rfl, rfl⟩ := List.cons.inj hlater
        obtain ⟨meanwhile, free, rest, rfl, hfree, hquiet⟩ := h.soon before e gap p rfl hdecoded
        exact ⟨meanwhile, free, rest ++ more, by simp, hfree, hquiet⟩

end FreesTexts

/-! ## What is asked for -/

/-- What a call asks to be put into a record. -/
inductive ConfigRequest where
  | text (offset : Nat) (value : String)
  | decode (value : String)
  | element (offset : Nat)
  | arguments (values : List String)
  deriving DecidableEq

/-- What a call asks for, if it asks for something to be put into a record. -/
def EntryCall.request? {shape : AnswerShape} : EntryCall shape → Option ConfigRequest
  | setString _ offset value => some (.text offset value)
  | decodeLocale value => some (.decode value)
  | appendText _ offset _ => some (.element offset)
  | setArgv _ values => some (.arguments values)
  | _ => none

/-- What has been asked for in some exchanges, in order. -/
def requests (t : List Exchange) : List ConfigRequest := t.filterMap (·.call.request?)

theorem requests_append (t more : List Exchange) :
    requests (t ++ more) = requests t ++ requests more :=
  List.filterMap_append

/-- What putting an item asks for. -/
def ConfigItem.requests (l : Layout) : ConfigItem → List ConfigRequest
  | text field _ value => [.text (l.offset field) value]
  | element field _ value => [.decode value, .element (l.offset field)]
  | arguments values => [.arguments values]

theorem Filling.isOk_of_verdict {what : String} {status : Status}
    (h : verdict what status = .ok ()) : status.isOk = true := by
  cases hok : status.isOk with
  | true => rfl
  | false =>
    rw [verdict, if_neg (by simp [hok])] at h
    cases h

theorem Filling.refused_of_verdict {what : String} {status : Status} {e : RuntimeError}
    (h : verdict what status = .error e) :
    status.isOk = false ∧ e = .configuration (.refused what status) := by
  cases hok : status.isOk with
  | true =>
    rw [verdict, if_pos hok] at h
    cases h
  | false =>
    rw [verdict, if_neg (by simp [hok])] at h
    cases h
    exact ⟨rfl, rfl⟩

section
variable {σ : Type} {l : Layout} {record : Words} {s : σ} {item : ConfigItem}
  {items : List ConfigItem} {o : FillingOutcome σ}

/-- The calls and the answers. -/
def FillingOutcome.exchanges (o : FillingOutcome σ) : List Exchange := o.turns.map (·.exchange)

theorem FillingOutcome.exchanges_andThen (o more : FillingOutcome σ) :
    (o.andThen more).exchanges = o.exchanges ++ more.exchanges :=
  List.map_append

namespace ConfigItem.Puts

theorem fills (h : item.Puts l record s o) : ∀ e ∈ o.exchanges, e.call.fills = true := by
  cases h <;> simp [FillingOutcome.exchanges, EntryCall.fills]

theorem frees (h : item.Puts l record s o) : FreesTexts o.exchanges := by
  cases h with
  | stopped | text | undecoded | arguments =>
    refine FreesTexts.of_forall ?_
    simp [FillingOutcome.exchanges, Exchange.decoded?, EntryCall.freed?]
  | element =>
    exact FreesTexts.of_freed ⟨rfl, rfl⟩ (List.forall_mem_singleton.mpr ⟨rfl, rfl⟩) ⟨rfl, rfl⟩

/-- An item that has been put has been asked for, and nothing has failed. -/
theorem of_ok (h : item.Puts l record s o) (hok : o.result = .ok ()) :
    (∀ e ∈ o.exchanges, e.fails = false) ∧ firstNul? item.texts = none ∧
      Stowage.requests o.exchanges = item.requests l := by
  cases h with
  | stopped | undecoded => cases hok
  | text hpassable | element hpassable | arguments hpassable =>
    have hstatus := Filling.isOk_of_verdict hok
    refine ⟨?_, hpassable, rfl⟩
    simp [FillingOutcome.exchanges, Exchange.fails, hstatus]

/-- An item that has not been put cannot be passed, or a call has failed. -/
theorem of_error {e : RuntimeError} (h : item.Puts l record s o) (herror : o.result = .error e) :
    (∃ text, firstNul? item.texts = some text ∧ e = .nulInText text ∧ o.turns = []) ∨
      (∃ fault, e = .configuration fault ∧ firstNul? item.texts = none ∧
        (∃ e ∈ o.exchanges, e.fails = true) ∧
        Stowage.requests o.exchanges <+: item.requests l) := by
  cases h with
  | stopped hnul =>
    cases herror
    exact .inl ⟨_, hnul, rfl, rfl⟩
  | undecoded hpassable =>
    cases herror
    refine .inr ⟨_, rfl, hpassable, ⟨_, List.mem_cons_self, rfl⟩, ?_⟩
    exact List.prefix_append _ [_]
  | text hpassable | element hpassable | arguments hpassable =>
    obtain ⟨hstatus, rfl⟩ := Filling.refused_of_verdict herror
    refine .inr ⟨_, rfl, hpassable, ?_, List.prefix_refl _⟩
    simp [FillingOutcome.exchanges, Exchange.fails, hstatus]

end ConfigItem.Puts

/-- The items before the first that cannot be passed. -/
def passableItems (items : List ConfigItem) : List ConfigItem := items.takeWhile (·.isPassable)

theorem passableItems_cons (h : firstNul? item.texts = none) :
    passableItems (item :: items) = item :: passableItems items :=
  List.takeWhile_cons_of_pos (by simp [ConfigItem.isPassable, h])

namespace Fills

theorem fills (h : Fills l items record s o) : ∀ e ∈ o.exchanges, e.call.fills = true := by
  induction h with
  | done => exact fun _ he => absurd he List.not_mem_nil
  | stops hput _ => exact hput.fills
  | goes hput _ _ ih =>
    rw [FillingOutcome.exchanges_andThen]
    exact List.forall_mem_append.mpr ⟨hput.fills, ih⟩

/-- **Every text that is decoded is freed** soon, wherever the filling stops. -/
theorem frees (h : Fills l items record s o) : FreesTexts o.exchanges := by
  induction h with
  | done => exact FreesTexts.of_forall fun _ he => absurd he List.not_mem_nil
  | stops hput _ => exact hput.frees
  | goes hput _ _ ih =>
    rw [FillingOutcome.exchanges_andThen]
    exact hput.frees.append ih

/-- What has been filled has been asked for, and nothing has failed. -/
theorem of_ok (h : Fills l items record s o) (hok : o.result = .ok ()) :
    (∀ e ∈ o.exchanges, e.fails = false) ∧ firstNul? (items.flatMap ConfigItem.texts) = none ∧
      requests o.exchanges = (passableItems items).flatMap (ConfigItem.requests l) := by
  induction h with
  | done => exact ⟨fun _ he => absurd he List.not_mem_nil, rfl, rfl⟩
  | stops _ hfailed =>
    rw [hfailed] at hok
    cases hok
  | goes hput hfirst _ ih =>
    obtain ⟨hquiet, hpassable, hasked⟩ := hput.of_ok hfirst
    obtain ⟨hquiet', hpassable', hasked'⟩ := ih hok
    rw [FillingOutcome.exchanges_andThen, requests_append, hasked, hasked',
      passableItems_cons hpassable, List.flatMap_cons, List.flatMap_cons, firstNul?_append,
      hpassable, hpassable']
    exact ⟨List.forall_mem_append.mpr ⟨hquiet, hquiet'⟩, rfl, rfl⟩

/-- A filling that stops has come to a text that cannot be passed, or to a call that has failed. -/
theorem of_error {e : RuntimeError} (h : Fills l items record s o) (herror : o.result = .error e) :
    (∃ text, firstNul? (items.flatMap ConfigItem.texts) = some text ∧ e = .nulInText text ∧
        (∀ e ∈ o.exchanges, e.fails = false) ∧
        requests o.exchanges = (passableItems items).flatMap (ConfigItem.requests l)) ∨
      (∃ fault, e = .configuration fault ∧ (∃ e ∈ o.exchanges, e.fails = true) ∧
        requests o.exchanges <+: (passableItems items).flatMap (ConfigItem.requests l)) := by
  induction h with
  | done => cases herror
  | @stops _ rest _ _ _ _ hput _ =>
    rcases hput.of_error herror with
      ⟨text, hnul, rfl, hturns⟩ | ⟨fault, rfl, hpassable, hfails, hasked⟩
    · refine .inl ⟨text, ?_, rfl, ?_, ?_⟩
      · rw [List.flatMap_cons, firstNul?_append, hnul]
        rfl
      · simp [FillingOutcome.exchanges, hturns]
      · simp [FillingOutcome.exchanges, hturns, passableItems, ConfigItem.isPassable, hnul,
          requests]
    · refine .inr ⟨fault, rfl, hfails, ?_⟩
      rw [passableItems_cons hpassable, List.flatMap_cons]
      exact hasked.trans (List.prefix_append _ _)
  | goes hput hfirst _ ih =>
    obtain ⟨hquiet, hpassable, hasked⟩ := hput.of_ok hfirst
    rw [FillingOutcome.exchanges_andThen, requests_append, hasked, passableItems_cons hpassable,
      List.flatMap_cons, List.flatMap_cons, firstNul?_append, hpassable]
    rcases ih herror with
      ⟨text, hnul, rfl, hquiet', hasked'⟩ | ⟨fault, rfl, ⟨e, he, hfails⟩, hasked'⟩
    · exact .inl ⟨text, hnul, rfl, List.forall_mem_append.mpr ⟨hquiet, hquiet'⟩, by rw [hasked']⟩
    · exact .inr ⟨fault, rfl, ⟨e, List.mem_append_right _ he, hfails⟩,
        List.prefix_append_right_inj _ |>.mpr hasked'⟩

end Fills

end

end Stowage
