import Stowage.Proofs.Container.Cuts
import Stowage.Proofs.Hosted.Layouts
import Stowage.Proofs.Hosted.Options

/-!
# Counters of options

Two options are counted, in numbers of 32 bits that are not checked when they grow.  They need not
be.  A record of a table takes more than a header (`Contents.length_sound_recordsFrom_le`), and
the length of a table is itself a number of 32 bits, so an archive that has been opened has far
fewer records than a counter has values (`Archive.length_records_le_of_load`).

So a counter is the number of its options after each of them (`RuntimeOptions.CountsExactly`), it
never wraps, and what is written into the record of a runtime is that number.
-/

namespace Stowage

open FileSystem Result

/-! ## Tables and their records -/

namespace Contents

/-- The records of a table, each of which takes more than a header, lie in the table. -/
theorem length_sound_recordsFrom_le (position : Nat) (rest : Bytes) :
    (sound (recordsFrom position rest)).length * (Record.headerSize + 1) ≤ rest.length := by
  induction position, rest using recordsFrom.induct with
  | case1 position =>
    rw [recordsFrom, if_pos rfl]
    exact Nat.le_refl 0
  | case2 position rest hne r hread ih =>
    rw [recordsFrom_ok hread, sound, List.length_cons, Nat.succ_mul]
    have hlong := Record.length_of_read hread
    rw [List.length_drop] at ih
    omega
  | case3 position rest hne e hread =>
    rw [recordsFrom_error hne hread]
    exact Nat.zero_le _

end Contents

namespace Archive

variable {fs : FileSystem} {path : Path} {a : Archive}

theorem length_table_lt_of_load (h : ((load path).apply fs).1 = .ok a) :
    a.table.length < UInt32.size := by
  obtain ⟨content, hcontent⟩ := content_of_load h
  obtain ⟨-, -, -, -, start, -, htable, -⟩ := ofContent_eq_ok.mp ((load_eq_ok hcontent).mp h)
  have hlength : a.table.length ≤ a.cookie.contentsLength.toNat := by
    rw [htable]
    exact List.length_take_le ..
  exact Nat.lt_of_le_of_lt hlength a.cookie.contentsLength.toNat_lt

/-- An archive that has been opened has no more records than fit into a table. -/
theorem length_records_le_of_load (h : ((load path).apply fs).1 = .ok a) :
    a.records.length ≤ (UInt32.size - 1) / 19 := by
  have htable := length_table_lt_of_load h
  have hrecords : a.records.length * 19 ≤ a.table.length :=
    Contents.length_sound_recordsFrom_le 0 a.table
  simp only [UInt32.size] at htable ⊢
  omega

theorem length_runtimeOptions_le (a : Archive) : a.runtimeOptions.length ≤ a.records.length := by
  rw [runtimeOptions, List.length_map]
  exact List.length_filter_le ..

end Archive

/-! ## Counters -/

namespace RuntimeOptions

open Setting

/-- The counters of some options are the numbers of their words, and these numbers are in their
range. -/
structure CountsExactly (options : List String) : Prop where
  verbose : (parse options).verbose.toInt = options.countP (isWord "v")
  verbose_lt : options.countP (isWord "v") < 0x80000000
  optimize : (parse options).optimize.toInt = options.countP (isWord "O")
  optimize_lt : options.countP (isWord "O") < 0x80000000

theorem countsExactly_of_length_lt {options : List String} (h : options.length < 0x80000000) :
    CountsExactly options := by
  have hcount (p : String → Bool) : options.countP p < 0x80000000 :=
    Nat.lt_of_le_of_lt List.countP_le_length h
  exact ⟨toInt_verbose (hcount _), hcount _, toInt_optimize (hcount _), hcount _⟩

/-- The numbers that some options ask for in the record of a runtime are those of their words. -/
theorem words_setNumbers_counters (options : List String) {l : Layout} (hl : l.IsRegular)
    {record : Words} (hfits : l.Fits record) :
    l.words (Filling.setNumbers l (parse options) record) .verbose =
        [.ofNat (options.countP (isWord "v"))] ∧
      l.words (Filling.setNumbers l (parse options) record) .optimizationLevel =
        [.ofNat (options.countP (isWord "O"))] := by
  rw [parse_eq_meaning]
  exact ⟨Filling.words_setNumbers hl _ hfits .verbose,
    Filling.words_setNumbers hl _ hfits .optimizationLevel⟩

end RuntimeOptions

namespace Archive

open RuntimeOptions Setting

/-- **The counters of an archive never wrap.**  Whatever has been opened, it has no more records
than fit into a table.  So after each of its options the two counters are the numbers of their
words, which are less than `2 ^ 31`; an option that is counted adds one, as a number; and the words
that are written into the record of a supported runtime are the numbers of the options. -/
theorem counters_never_wrap {fs : FileSystem} {path : Path} {a : Archive}
    (h : ((load path).apply fs).1 = .ok a) :
    a.records.length ≤ (UInt32.size - 1) / 19 ∧
    (∀ k, CountsExactly (a.runtimeOptions.take k)) ∧
    (∀ k text, a.runtimeOptions[k]? = some text →
      (parse (a.runtimeOptions.take (k + 1))).verbose.toInt =
        (parse (a.runtimeOptions.take k)).verbose.toInt + (if isWord "v" text then 1 else 0) ∧
      (parse (a.runtimeOptions.take (k + 1))).optimize.toInt =
        (parse (a.runtimeOptions.take k)).optimize.toInt + (if isWord "O" text then 1 else 0)) ∧
    ∀ version l record, Layout.ofVersion? version = some l → l.Fits record →
      ∃ verbose optimize,
        l.words (Filling.setNumbers l (parse a.runtimeOptions) record) .verbose = [verbose] ∧
        l.words (Filling.setNumbers l (parse a.runtimeOptions) record) .optimizationLevel =
          [optimize] ∧
        verbose.toNat = a.runtimeOptions.countP (isWord "v") ∧
        optimize.toNat = a.runtimeOptions.countP (isWord "O") := by
  have hrecords := length_records_le_of_load h
  have hlength : a.runtimeOptions.length < 0x80000000 := by
    have hoptions := a.length_runtimeOptions_le
    simp only [UInt32.size] at hrecords
    omega
  have htake (k : Nat) : (a.runtimeOptions.take k).length < 0x80000000 :=
    Nat.lt_of_le_of_lt (List.length_take_le' ..) hlength
  have hexact (k : Nat) := countsExactly_of_length_lt (htake k)
  refine ⟨hrecords, hexact, fun k text htext => ?_, fun version l record hl hfits => ?_⟩
  · rw [(hexact _).verbose, (hexact _).verbose, (hexact _).optimize, (hexact _).optimize,
      List.take_add_one, htext]
    simp only [Option.toList_some, List.countP_append, List.countP_singleton]
    constructor <;> split <;> rfl
  · obtain ⟨hverbose, hoptimize⟩ :=
      words_setNumbers_counters a.runtimeOptions (Layout.isRegular_of_ofVersion? hl) hfits
    have hall := countsExactly_of_length_lt hlength
    have htoNat {n : Nat} (hlt : n < 0x80000000) : (UInt32.ofNat n).toNat = n :=
      UInt32.toNat_ofNat_of_lt' (Nat.lt_trans hlt (by decide))
    exact ⟨_, _, hverbose, hoptimize, htoNat hall.verbose_lt, htoNat hall.optimize_lt⟩

/-- Entries that are options, all of which are counted. -/
def counted : List PackedEntry := ["v", "O", " v "].map .option

/-- The general statement for a container of these. -/
theorem counters_never_wrap_counted : ∃ a verbose,
    ((load ⟨"/c"⟩).apply (packedFiles counted)).1 = .ok a ∧
      a.runtimeOptions = ["v", "O", " v "] ∧
      (parse (a.runtimeOptions.take 3)).verbose.toInt =
        (parse (a.runtimeOptions.take 2)).verbose.toInt + 1 ∧
      Layout.v312.words (Filling.setNumbers .v312 (parse a.runtimeOptions)
        (Words.zero Layout.v312.size)) .verbose = [verbose] ∧
      verbose.toNat = 2 := by
  obtain ⟨a, files, hopened, hoptions⟩ :
      OpensTo counted fun a _ => a.runtimeOptions = ["v", "O", " v "] := by
    decide +kernel
  have hload := congrArg Prod.fst hopened
  obtain ⟨-, -, hstep, hwords⟩ := counters_never_wrap hload
  obtain ⟨verbose, _, hverbose, -, htoNat, -⟩ :=
    hwords 312 .v312 _ rfl (Layout.fits_zero .v312)
  refine ⟨a, verbose, hload, hoptions, ?_, hverbose, ?_⟩
  · exact (hstep 2 " v " (by rw [hoptions]; rfl)).1
  · rw [htoNat, hoptions]
    decide

end Archive

end Stowage
