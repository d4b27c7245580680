import Stowage.Proofs.Container.Words

/-!
# What is accepted as a container

A file is opened as a container exactly when its content has the format (`Format`): the
last magic of the file starts a cookie, whose library name is text and whose numbers place
a well-formed table before the cookie.  `load_ok_iff_format` states this, together with
what holds of every archive that has been opened.
-/

namespace Stowage

open FileSystem Result

variable {fs fs' : FileSystem} {path : Path} {content : Bytes} {position : Nat}

/-! ## The cookie -/

namespace Cookie

/-- A block with the magic holds a cookie if the library name is text. -/
theorem parse_eq_ok {block : Bytes} {c : Cookie} : parse block = .ok c ↔
    block.take magic.length = magic ∧
      Text.decode? ((block.drop 24).takeWhile (· ≠ 0)) = some c.runtimeLibrary ∧
      c.containerLength = Word.at32 block 8 ∧ c.contentsOffset = Word.at32 block 12 ∧
      c.contentsLength = Word.at32 block 16 ∧ c.runtimeVersion = Word.at32 block 20 := by
  rw [parse]
  by_cases hmagic : block.take magic.length = magic
  · rw [if_neg (not_not_intro hmagic)]
    cases Text.decode? ((block.drop 24).takeWhile (· ≠ 0)) with
    | none =>
      refine ⟨fun h => (by cases h), ?_⟩
      rintro ⟨-, h, -⟩
      cases h
    | some name =>
      constructor
      · intro h
        cases h
        exact ⟨hmagic, rfl, rfl, rfl, rfl, rfl⟩
      · rcases c with ⟨containerLength, contentsOffset, contentsLength, version, library⟩
        rintro ⟨-, h, rfl, rfl, rfl, rfl⟩
        cases h
        rfl
  · rw [if_pos hmagic]
    refine ⟨fun h => (by cases h), ?_⟩
    rintro ⟨h, -⟩
    exact absurd h hmagic

end Cookie

/-! ## The format -/

namespace Format

/-- The length of the container whose cookie stands at a position. -/
def containerLength (content : Bytes) (position : Nat) : Nat :=
  (Word.at32 content (position + 8)).toNat

/-- Where the table starts, counted from the start of the container. -/
def contentsOffset (content : Bytes) (position : Nat) : Nat :=
  (Word.at32 content (position + 12)).toNat

/-- The length of the table. -/
def contentsLength (content : Bytes) (position : Nat) : Nat :=
  (Word.at32 content (position + 16)).toNat

/-- Where the table starts in the file. -/
def tableStart (content : Bytes) (position : Nat) : Nat :=
  position + Cookie.size - containerLength content position + contentsOffset content position

/-- The name of the library, which ends at the first zero of its field. -/
def library (content : Bytes) (position : Nat) : Bytes :=
  ((content.drop (position + 24)).take Cookie.nameWidth).takeWhile (· ≠ 0)

/-- The bytes of the table. -/
def table (content : Bytes) (position : Nat) : Bytes :=
  (content.drop (tableStart content position)).take (contentsLength content position)

end Format

open Format in
/-- The content of a file that ends in a container, but for what follows its cookie. -/
structure Format (content : Bytes) (position : Nat) : Prop where
  long : Cookie.size ≤ content.length
  last : Scan.IsLast Cookie.magic content position
  whole : position + Cookie.size ≤ content.length
  text : Text.IsText (library content position)
  fits : containerLength content position ≤ position + Cookie.size
  before : tableStart content position + contentsLength content position ≤ position
  records : IsTable (table content position)

namespace Archive

/-- The cookie at the last magic of a file. -/
theorem parse_of_last {c : Cookie} (hlast : Scan.IsLast Cookie.magic content position) :
    Cookie.parse ((content.drop position).take Cookie.size) = .ok c ↔
      Text.decode? (Format.library content position) = some c.runtimeLibrary ∧
      c.containerLength = Word.at32 content (position + 8) ∧
      c.contentsOffset = Word.at32 content (position + 12) ∧
      c.contentsLength = Word.at32 content (position + 16) ∧
      c.runtimeVersion = Word.at32 content (position + 20) := by
  have hmagic : ((content.drop position).take Cookie.size).take Cookie.magic.length =
      Cookie.magic := by
    rw [List.take_take, Nat.min_eq_left (by decide)]
    exact (List.prefix_iff_eq_take.mp hlast.occurs).symm
  have hword (i : Nat) (h : i + 4 ≤ Cookie.size) :
      Word.at32 ((content.drop position).take Cookie.size) i =
        Word.at32 content (position + i) := by
    rw [Word.at32_take h, Word.at32_drop]
  rw [Cookie.parse_eq_ok, hword 8 (by decide), hword 12 (by decide), hword 16 (by decide),
    hword 20 (by decide), List.drop_take, List.drop_drop]
  exact ⟨fun h => h.2, fun h => ⟨hmagic, h⟩⟩

/-- What a plan says. -/
theorem plan_eq_ok {cookie : Cookie} {base start : Nat} :
    plan path content = .ok (cookie, base, start) ↔ ∃ position,
      Scan.IsLast Cookie.magic content position ∧ position + Cookie.size ≤ content.length ∧
      Cookie.parse ((content.drop position).take Cookie.size) = .ok cookie ∧
      layOut position cookie = .ok (base, start) := by
  rw [plan]
  by_cases hshort : content.length < Cookie.size
  · rw [if_pos hshort]
    refine ⟨fun h => (by cases h), ?_⟩
    rintro ⟨position, -, h, -⟩
    omega
  rw [if_neg hshort]
  cases hlast : Scan.lastIn Cookie.magic content with
  | none =>
    refine ⟨fun h => (by cases h), ?_⟩
    rintro ⟨position, h, -⟩
    exact absurd h.occurs ((Scan.lastIn_eq_none_iff (by decide)).mp hlast position)
  | some found =>
    have hfound := (Scan.lastIn_eq_some_iff (by decide)).mp hlast
    dsimp only
    by_cases hbeyond : content.length < found + Cookie.size
    · rw [if_pos hbeyond]
      refine ⟨fun h => (by cases h), ?_⟩
      rintro ⟨position, h, hle, -⟩
      rw [h.unique hfound] at hle
      omega
    rw [if_neg hbeyond]
    constructor
    · intro h
      obtain ⟨cookie', hcookie, h⟩ := bind_eq_ok.mp h
      obtain ⟨⟨base', start'⟩, hlayout, h⟩ := bind_eq_ok.mp h
      cases h
      exact ⟨found, hfound, Nat.le_of_not_lt hbeyond, hcookie, hlayout⟩
    · rintro ⟨position, h, -, hcookie, hlayout⟩
      cases h.unique hfound
      exact bind_eq_ok.mpr ⟨cookie, hcookie, bind_eq_ok.mpr ⟨(base, start), hlayout, rfl⟩⟩

/-- What an archive says of the content that it was opened from. -/
theorem ofContent_eq_ok {file : Handle} {a : Archive} :
    ofContent path file content = .ok a ↔ ∃ position,
      Scan.IsLast Cookie.magic content position ∧ position + Cookie.size ≤ content.length ∧
      Cookie.parse ((content.drop position).take Cookie.size) = .ok a.cookie ∧
      ∃ start, layOut position a.cookie = .ok (a.baseOffset, start) ∧
        a.table = (content.drop start).take a.cookie.contentsLength.toNat ∧
        checkTable a.table = .ok a.needsExtraction ∧
        a.path = path ∧ a.file = file ∧ a.fileLength = content.length := by
  constructor
  · intro h
    obtain ⟨⟨cookie, base, start⟩, hplan, h⟩ := bind_eq_ok.mp h
    obtain ⟨needed, hcheck, h⟩ := bind_eq_ok.mp h
    cases h
    obtain ⟨position, hlast, hle, hcookie, hlayout⟩ := plan_eq_ok.mp hplan
    exact ⟨position, hlast, hle, hcookie, start, hlayout, rfl, hcheck, rfl, rfl, rfl⟩
  · rcases a with ⟨_, _, _, base, cookie, table, needed⟩
    dsimp only
    rintro ⟨position, hlast, hle, hcookie, start, hlayout, rfl, hcheck, rfl, rfl, rfl⟩
    exact bind_eq_ok.mpr ⟨_, plan_eq_ok.mpr ⟨position, hlast, hle, hcookie, hlayout⟩,
      bind_eq_ok.mpr ⟨_, hcheck, rfl⟩⟩

/-- A content gives an archive if it has the format. -/
theorem ofContent_ok_iff {file : Handle} :
    (∃ a, ofContent path file content = .ok a) ↔ ∃ position, Format content position := by
  constructor
  · rintro ⟨a, ha⟩
    obtain ⟨position, hlast, hwhole, hcookie, start, hlayout, htable, hcheck, -⟩ :=
      ofContent_eq_ok.mp ha
    obtain ⟨hname, hlength, hoffset, hcontents, -⟩ := (parse_of_last hlast).mp hcookie
    obtain ⟨hfits, hbase, hstart, hbefore⟩ := layOut_eq_ok.mp hlayout
    rw [hlength] at hfits hbase
    rw [hbase, hoffset] at hstart
    subst hstart
    rw [hcontents] at hbefore htable
    rw [htable] at hcheck
    exact ⟨position, Nat.le_trans (Nat.le_add_left ..) hwhole, hlast, hwhole,
      ⟨_, Text.decode?_eq_some_iff.mp hname⟩, hfits, hbefore, (checkTable_eq_ok.mp hcheck).1⟩
  · rintro ⟨position, -, hlast, hwhole, ⟨name, hname⟩, hfits, hbefore, hrecords⟩
    let cookie : Cookie := ⟨Word.at32 content (position + 8), Word.at32 content (position + 12),
      Word.at32 content (position + 16), Word.at32 content (position + 20), name⟩
    have hcookie : Cookie.parse ((content.drop position).take Cookie.size) = .ok cookie :=
      (parse_of_last hlast).mpr ⟨Text.decode?_eq_some_iff.mpr hname, rfl, rfl, rfl, rfl⟩
    have hlayout : layOut position cookie = .ok (position + Cookie.size -
        Format.containerLength content position, Format.tableStart content position) :=
      layOut_eq_ok.mpr ⟨hfits, rfl, rfl, hbefore⟩
    exact ⟨_, bind_eq_ok.mpr ⟨_, plan_eq_ok.mpr ⟨position, hlast, hwhole, hcookie, hlayout⟩,
      bind_eq_ok.mpr ⟨_, checkTable_eq_ok.mpr ⟨hrecords, rfl⟩, rfl⟩⟩⟩

/-- What holds of every archive, whatever the file says in its numbers. -/
theorem ofContent_sound {file : Handle} {a : Archive}
    (h : ofContent path file content = .ok a) (hlast : Scan.IsLast Cookie.magic content position) :
    a.baseOffset + a.cookie.containerLength.toNat = position + Cookie.size ∧
      Cookie.size + a.cookie.contentsOffset.toNat + a.cookie.contentsLength.toNat ≤
        a.cookie.containerLength.toNat ∧
      (∀ e ∈ a.entries, ∃ r, e = .ok r) ∧
      (a.needsExtraction = true ↔ ∃ r, .ok r ∈ a.entries ∧ r.kind.isExtractable = true) := by
  obtain ⟨position', hlast', -, -, start, hlayout, -, hcheck, -⟩ := ofContent_eq_ok.mp h
  cases hlast'.unique hlast
  obtain ⟨hfits, hbase, hstart, hbefore⟩ := layOut_eq_ok.mp hlayout
  obtain ⟨htable, hneeded⟩ := checkTable_eq_ok.mp hcheck
  have hentries := Contents.isTable_iff.mp htable
  refine ⟨by omega, by omega, hentries, ?_⟩
  rw [hneeded, List.any_eq_true, entries, ← Contents.map_ok_sound hentries, Contents.sound_map_ok]
  constructor
  · rintro ⟨r, hr, hkind⟩
    exact ⟨r, List.mem_map_of_mem hr, hkind⟩
  · rintro ⟨r, hr, hkind⟩
    obtain ⟨r', hr', heq⟩ := List.mem_map.mp hr
    cases heq
    exact ⟨r, hr', hkind⟩

/-- An archive that has been opened has no entry that breaks the format. -/
theorem entries_of_load {a : Archive} (h : ((load path).apply fs).1 = .ok a) :
    a.entries = a.records.map .ok := by
  obtain ⟨content, hcontent⟩ := content_of_load h
  obtain ⟨fs', position, happly, -⟩ := load_apply hcontent
  rw [happly] at h
  obtain ⟨position, hlast, -⟩ := ofContent_eq_ok.mp (mapError_eq_ok.mp h)
  exact (Contents.map_ok_sound (ofContent_sound (mapError_eq_ok.mp h) hlast).2.2.1).symm

/-- The table fits into the file, be it well formed or not. -/
theorem contentsLength_le_of_plan {cookie : Cookie} {base start : Nat}
    (h : plan path content = .ok (cookie, base, start)) :
    cookie.contentsLength.toNat ≤ content.length := by
  obtain ⟨position, -, hwhole, -, hlayout⟩ := plan_eq_ok.mp h
  obtain ⟨-, -, -, hbefore⟩ := layOut_eq_ok.mp hlayout
  omega

/-- **A container is opened exactly if it has the format.**  It then ends with its cookie
and holds its table, all records of which are read, and needs unpacking exactly if one of
them is of a kind that does.  Whatever the numbers of the file are, none of the words that
are computed from them wraps, and a table is not read unless it fits into the file. -/
theorem load_ok_iff_format (h : fs.content path = .ok content)
    (hlength : content.length < Word.fileBound) :
    ((load path).apply fs).1 =
        (ofContent path fs.openFiles.length content).mapError .plain ∧
    ((∃ a, ((load path).apply fs).1 = .ok a) ↔ ∃ position, Format content position) ∧
    (∀ a position, ((load path).apply fs).1 = .ok a → Scan.IsLast Cookie.magic content position →
      a.baseOffset + a.cookie.containerLength.toNat = position + Cookie.size ∧
      Cookie.size + a.cookie.contentsOffset.toNat + a.cookie.contentsLength.toNat ≤
        a.cookie.containerLength.toNat ∧
      (∀ e ∈ a.entries, ∃ r, e = .ok r) ∧
      (a.needsExtraction = true ↔ ∃ r, .ok r ∈ a.entries ∧ r.kind.isExtractable = true)) ∧
    planWords path content = some ((plan path content).map fun places =>
      (places.1, places.2.1.toUInt64, places.2.2.toUInt64)) ∧
    ∀ cookie base start, plan path content = .ok (cookie, base, start) →
      cookie.contentsLength.toNat ≤ content.length := by
  obtain ⟨fs', position, happly, -⟩ := load_apply h
  have hresult (a : Archive) : ((load path).apply fs).1 = .ok a ↔
      ofContent path fs.openFiles.length content = .ok a := by
    rw [happly]
    exact mapError_eq_ok
  refine ⟨by rw [happly], ?_, fun a position ha hlast => ?_, planWords_eq path hlength,
    fun cookie base start => contentsLength_le_of_plan⟩
  · rw [← @ofContent_ok_iff path content fs.openFiles.length]
    exact ⟨fun ⟨a, ha⟩ => ⟨a, (hresult a).mp ha⟩, fun ⟨a, ha⟩ => ⟨a, (hresult a).mpr ha⟩⟩
  · exact ofContent_sound ((hresult a).mp ha) hlast

/-- A container with an option, a stored file, a compressed one and a link, in the middle of
a file. -/
def embedded : Bytes :=
  [9, 9] ++ (Packing.withDefaultRuntime [.option "u", .plain .data "d/a" [1, 2],
    .compressed (fun _ => [0x78, 1, 1, 0, 0, 0xff, 0xff, 0, 0, 0, 1]) .module "m" [],
    .plain .symlink "l" (Text.encode "d")]).bytes ++ [0]

/-- The general statement for that container, which is opened. -/
theorem load_ok_iff_format_embedded :
    (holding embedded).content ⟨"/a"⟩ = .ok embedded ∧ embedded.length < Word.fileBound ∧
    (∃ position, Format embedded position) ∧
    planWords ⟨"/a"⟩ embedded = some ((plan ⟨"/a"⟩ embedded).map fun places =>
      (places.1, places.2.1.toUInt64, places.2.2.toUInt64)) ∧
    ∃ a, ((load ⟨"/a"⟩).apply (holding embedded)).1 = .ok a ∧ a.baseOffset = 2 ∧
      (a.records.map fun r => (r.kind, r.name)) =
        [(.runtimeOption, "u"), (.data, "d/a"), (.module, "m"), (.symlink, "l")] ∧
      (∀ e ∈ a.entries, ∃ r, e = .ok r) ∧ ∃ r, .ok r ∈ a.entries ∧ r.kind.isExtractable = true := by
  obtain ⟨a, files, hload, hbase, hrecords, hneeds⟩ : ∃ a files,
      (load ⟨"/a"⟩).apply (holding embedded) = (.ok a, files) ∧ a.baseOffset = 2 ∧
        (a.records.map fun r => (r.kind, r.name)) =
          [(.runtimeOption, "u"), (.data, "d/a"), (.module, "m"), (.symlink, "l")] ∧
        a.needsExtraction = true := by decide +kernel
  have hlength : embedded.length < Word.fileBound := by decide +kernel
  obtain ⟨-, haccepts, hsound, hwords, -⟩ :=
    load_ok_iff_format (content_holding embedded) hlength
  have hopened := congrArg Prod.fst hload
  obtain ⟨position, hformat⟩ := haccepts.mp ⟨a, hopened⟩
  obtain ⟨-, -, hentries, hextractable⟩ := hsound a position hopened hformat.last
  exact ⟨content_holding embedded, hlength, ⟨position, hformat⟩, hwords, a, hopened, hbase,
    hrecords, hentries, hextractable.mp hneeds⟩

end Archive
end Stowage
