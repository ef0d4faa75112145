import Pocl.ExceptPrograms
import Pocl.ProgramBinaries

/-!
# Round trips of program binaries

The devices of an accepted list are the first ones of the context, so that the
queries return what the program was created from as long as the memory of the
program holds all binaries.  It does so exactly if their total length is less than
`2 ^ 32`.
-/

namespace Pocl.ProgramBinaries

open ExceptPrograms

section Checks

theorem totalBinarySize_ok
    (entries : List BinaryEntry) (i total result : ℕ)
    (hok : totalBinarySize i entries total = .ok result) :
    (∀ entry ∈ entries, entry.binary ≠ none) ∧
      result % 2 ^ 32 = (total + (entries.map BinaryEntry.length).sum) % 2 ^ 32 ∧
      (total < 2 ^ 32 → result < 2 ^ 32) := by
  induction entries generalizing i total with
  | nil =>
      cases hok
      simp
  | cons entry entries ih =>
      unfold totalBinarySize at hok
      split at hok
      · cases hok
      next hentry =>
        split at hok
        · cases hok
        · obtain ⟨hbinaries, hresult, hlt⟩ := ih _ _ hok
          refine ⟨?_, ?_, fun _ => hlt (Nat.mod_lt _ (by decide))⟩
          · intro other hother
            obtain rfl | hother := List.mem_cons.mp hother
            · exact fun hnone => hentry (Or.inr hnone)
            · exact hbinaries other hother
          · rw [List.map_cons, List.sum_cons]
            omega

theorem foldlM_found
    (devices : List DeviceId) (other device : DeviceId) (found : Bool) :
    devices.foldlM
        (fun found _ => (do
          let other ← (Except.ok other : Except Failure DeviceId)
          return found || other == device : Except Failure Bool)) found =
      .ok (found || (!devices.isEmpty && other == device)) := by
  induction devices generalizing found with
  | nil => simp [pure, Except.pure]
  | cons first devices ih =>
      rw [List.foldlM_cons]
      change (List.foldlM _ (found || other == device) devices) = _
      rw [ih]
      cases found <;> cases hother : other == device <;> simp

theorem findDevice_ok {context : Context} {i : ℕ} {device : DeviceId}
    (hok : findDevice context i device = .ok true) :
    context.devices[i]? = some device := by
  unfold findDevice readAt at hok
  cases hread : context.devices[i]? with
  | none =>
      rw [hread] at hok
      cases hdevices : context.devices with
      | nil =>
          rw [hdevices] at hok
          cases hok
      | cons first devices =>
          rw [hdevices, List.foldlM_cons] at hok
          cases hok
  | some other =>
      rw [hread] at hok
      rw [foldlM_found] at hok
      simp only [Bool.false_or, Except.ok.injEq, Bool.and_eq_true, beq_iff_eq] at hok
      rw [hok.2]

theorem checkDevices_ok {context : Context}
    (entries : List BinaryEntry) (i : ℕ)
    (hok : checkDevices context i entries = .ok ()) :
    (context.devices.drop i).take entries.length = entries.map BinaryEntry.device := by
  induction entries generalizing i with
  | nil => simp
  | cons entry entries ih =>
      unfold checkDevices at hok
      obtain ⟨found, hfind, hrest⟩ := bind_eq_ok.mp hok
      cases found with
      | false => cases hrest
      | true =>
          have hdevice := findDevice_ok hfind
          obtain ⟨hi, hget⟩ := List.getElem?_eq_some_iff.mp hdevice
          rw [List.drop_eq_getElem_cons hi, hget, List.length_cons, List.take_succ_cons,
            ih (i + 1) hrest, List.map_cons]

end Checks

section Copying

/-- The bytes of the binaries, one after the other. -/
def packed (entries : List BinaryEntry) : List UInt8 :=
  (entries.map (fun entry => entry.binary.getD [])).flatten

def positions : ℕ → List BinaryEntry → List ℕ
  | _, [] => []
  | pos, entry :: entries => pos :: positions (pos + entry.length) entries

theorem exists_binary {entries : List BinaryEntry} {entry : BinaryEntry}
    (hbinaries : ∀ entry ∈ entries, entry.binary ≠ none) (hentry : entry ∈ entries) :
    ∃ bytes, entry.binary = some bytes ∧ bytes.length = entry.length := by
  obtain ⟨bytes, hbytes⟩ := Option.ne_none_iff_exists'.mp (hbinaries entry hentry)
  exact ⟨bytes, hbytes, entry.sized bytes hbytes⟩

theorem length_packed (entries : List BinaryEntry)
    (hbinaries : ∀ entry ∈ entries, entry.binary ≠ none) :
    (packed entries).length = (entries.map BinaryEntry.length).sum := by
  induction entries with
  | nil => rfl
  | cons entry entries ih =>
      obtain ⟨bytes, hbytes, hlength⟩ := exists_binary hbinaries List.mem_cons_self
      have hrest := ih (fun other hother => hbinaries other (List.mem_cons_of_mem _ hother))
      simp only [packed, List.map_cons, List.flatten_cons, List.length_append,
        List.sum_cons, hbytes, Option.getD_some, hlength]
      exact congrArg _ hrest

theorem memcpy_ok {target source : List UInt8} {pos : ℕ}
    (hfits : pos + source.length ≤ target.length) :
    memcpy target pos source =
      .ok (target.take pos ++ source ++ target.drop (pos + source.length)) :=
  if_pos hfits

/-- The binaries are copied one after the other if there is room for all of them. -/
theorem copyBinaries_fits (entries : List BinaryEntry) (front rest : List UInt8)
    (hbinaries : ∀ entry ∈ entries, entry.binary ≠ none)
    (hfits : (packed entries).length ≤ rest.length) :
    copyBinaries entries (front ++ rest) front.length =
      .ok (front ++ packed entries ++ rest.drop (packed entries).length,
        positions front.length entries) := by
  induction entries generalizing front rest with
  | nil => simp [copyBinaries, packed, positions]
  | cons entry entries ih =>
      obtain ⟨bytes, hbytes, hlength⟩ := exists_binary hbinaries List.mem_cons_self
      have hpacked : packed (entry :: entries) = bytes ++ packed entries := by
        simp [packed, hbytes]
      rw [hpacked, List.length_append] at hfits
      have hcopy : memcpy (front ++ rest) front.length bytes =
          .ok ((front ++ bytes) ++ rest.drop bytes.length) := by
        rw [memcpy_ok (by simp; omega)]
        simp
      have hrest := ih (front ++ bytes) (rest.drop bytes.length)
        (fun other hother => hbinaries other (List.mem_cons_of_mem _ hother))
        (by simp; omega)
      rw [List.length_append] at hrest
      simp only [copyBinaries, hbytes, hcopy, bind, Except.bind]
      rw [← hlength, hrest]
      simp only [pure, Except.pure, positions, hpacked, ← hlength]
      simp

/-- One of the copies goes beyond the memory if there is not enough room. -/
theorem copyBinaries_overflows (entries : List BinaryEntry) (memory : List UInt8) (pos : ℕ)
    (hbinaries : ∀ entry ∈ entries, entry.binary ≠ none)
    (hpos : pos ≤ memory.length)
    (hover : memory.length < pos + (packed entries).length) :
    copyBinaries entries memory pos = .error .undefined := by
  induction entries generalizing memory pos with
  | nil =>
      simp only [packed, List.map_nil, List.flatten_nil, List.length_nil] at hover
      omega
  | cons entry entries ih =>
      obtain ⟨bytes, hbytes, hlength⟩ := exists_binary hbinaries List.mem_cons_self
      have hpacked : packed (entry :: entries) = bytes ++ packed entries := by
        simp [packed, hbytes]
      rw [hpacked, List.length_append] at hover
      by_cases hfits : pos + bytes.length ≤ memory.length
      · have hrest := ih
          (memory.take pos ++ bytes ++ memory.drop (pos + bytes.length)) (pos + bytes.length)
          (fun other hother => hbinaries other (List.mem_cons_of_mem _ hother))
          (by simp; omega) (by simp; omega)
        rw [hlength] at hrest
        simp only [copyBinaries, hbytes, memcpy_ok hfits, bind, Except.bind]
        rw [hlength, hrest]
      · simp only [copyBinaries, hbytes, memcpy, if_neg hfits, bind, Except.bind]

end Copying

section Storing

theorem storeBinaries_packed
    (entries : List BinaryEntry) (front : List UInt8) (targets : List (List UInt8))
    (hbinaries : ∀ entry ∈ entries, entry.binary ≠ none)
    (htargets : List.Forall₂ (fun target entry => target.length = entry.length)
      targets entries) :
    storeBinaries (front ++ packed entries)
        ((positions front.length entries).zip (entries.map BinaryEntry.length))
        (targets.map some) =
      .ok (entries.map BinaryEntry.binary) := by
  induction htargets generalizing front with
  | nil => rfl
  | @cons target entry targets entries htarget _ ih =>
      obtain ⟨bytes, hbytes, hlength⟩ := exists_binary hbinaries List.mem_cons_self
      have hpacked : packed (entry :: entries) = bytes ++ packed entries := by
        simp [packed, hbytes]
      have hread : readBytes (front ++ (bytes ++ packed entries)) front.length entry.length =
          .ok bytes := by
        rw [readBytes, if_pos (by simp; omega), List.drop_left, ← hlength, List.take_left]
      have hcopy : memcpy target 0 bytes = .ok bytes := by
        rw [memcpy_ok (by omega)]
        simp [hlength, htarget]
      have hrest := ih (front ++ bytes)
        (fun other hother => hbinaries other (List.mem_cons_of_mem _ hother))
      rw [List.length_append, hlength, List.append_assoc] at hrest
      simp only [positions, List.map_cons, List.zip_cons_cons, storeBinaries, hpacked, hread,
        hcopy, hbytes, bind, Except.bind, hrest]
      rfl

theorem mapM_readAt (array : List ℕ) (n : ℕ) (hn : n ≤ array.length) :
    (List.range n).mapM (readAt array) = .ok (array.take n) := by
  induction n with
  | zero => rfl
  | succ n ih =>
      have hlt : n < array.length := hn
      have hread : readAt array n = .ok array[n] := by
        simp [readAt, List.getElem?_eq_getElem hlt]
      rw [List.range_succ, List.mapM_append, ih (by omega)]
      simp only [bind, Except.bind, List.mapM_cons, List.mapM_nil, hread, pure, Except.pure,
        List.take_succ_eq_append_getElem hlt]

end Storing

section RoundTrip

def Mallocs.succeed (mallocs : Mallocs) : Prop :=
  mallocs.program ∧ mallocs.binarySizes ∧ mallocs.binaries ∧ mallocs.memory ∧
    mallocs.devices

/-- The call finds nothing wrong with its arguments, and gets all memory it asks
for. -/
def Accepts (mallocs : Mallocs) (context : Context) (entries : List BinaryEntry) : Prop :=
  (∃ total, checkArguments (some context) (some entries) = .ok (context, entries, total)) ∧
    mallocs.succeed

/-- The queries return the devices, sizes and bytes that the program was created
from, and their results give an equal program. -/
def RoundTrips (mallocs : Mallocs) (context : Context) (entries : List BinaryEntry) : Prop :=
  ∃ program, clCreateProgramWithBinary mallocs (some context) (some entries) = .ok program ∧
    (∀ paramValueSize value, 8 * entries.length ≤ paramValueSize →
      value.length = entries.length →
      programDevices program paramValueSize (some value) =
        .ok (some (entries.map BinaryEntry.device), 8 * entries.length)) ∧
    (∀ paramValueSize value, 8 * entries.length ≤ paramValueSize →
      value.length = entries.length →
      programBinarySizes program paramValueSize (some value) =
        .ok (some (entries.map BinaryEntry.length), 8 * entries.length)) ∧
    (∀ paramValueSize targets, 8 * entries.length ≤ paramValueSize →
      List.Forall₂ (fun target entry => List.length target = BinaryEntry.length entry)
        targets entries →
      programBinaries program paramValueSize (some (targets.map some)) =
        .ok (some (entries.map BinaryEntry.binary), 8 * entries.length)) ∧
    ∀ answers : List BinaryEntry,
      answers.map BinaryEntry.device = entries.map BinaryEntry.device →
      answers.map BinaryEntry.length = entries.map BinaryEntry.length →
      answers.map BinaryEntry.binary = entries.map BinaryEntry.binary →
      clCreateProgramWithBinary mallocs (some context) (some answers) = .ok program

variable {mallocs : Mallocs} {context : Context} {entries : List BinaryEntry}

theorem Mallocs.succeed.allocate (hmallocs : mallocs.succeed) :
    allocate mallocs = .ok () := by
  obtain ⟨hprogram, hsizes, hbinaries, hmemory, hdevices⟩ := hmallocs
  simp [ProgramBinaries.allocate, hprogram, hsizes, hbinaries, hmemory, hdevices]

/-- What an accepted call has checked. -/
theorem Accepts.checked (haccepts : Accepts mallocs context entries) :
    (∀ entry ∈ entries, entry.binary ≠ none) ∧
      context.devices.take entries.length = entries.map BinaryEntry.device ∧
      checkArguments (some context) (some entries) =
        .ok (context, entries, (packed entries).length % 2 ^ 32) := by
  obtain ⟨⟨total, hcheck⟩, _⟩ := haccepts
  cases entries with
  | nil => cases hcheck
  | cons entry rest =>
      have hchecks := hcheck
      obtain ⟨size, htotal, hcheck⟩ := bind_eq_ok.mp hcheck
      obtain ⟨_, hdevices, hcheck⟩ := bind_eq_ok.mp hcheck
      obtain ⟨_, _, hcheck⟩ := bind_eq_ok.mp hcheck
      cases hcheck
      obtain ⟨hbinaries, hmod, hlt⟩ := totalBinarySize_ok _ _ _ _ htotal
      refine ⟨hbinaries, checkDevices_ok _ 0 hdevices, ?_⟩
      have hsmall := hlt (by decide)
      rw [Nat.mod_eq_of_lt hsmall, Nat.zero_add] at hmod
      rw [hchecks, length_packed _ hbinaries, ← hmod]

/-- With enough memory for all binaries the call creates this program. -/
def created (context : Context) (entries : List BinaryEntry) : Program where
  context := context
  numDevices := entries.length
  devices := entries.map BinaryEntry.device
  binarySizes := entries.map BinaryEntry.length
  memory := packed entries
  binaries := positions 0 entries

theorem Accepts.creates
    (haccepts : Accepts mallocs context entries)
    (hsmall : (packed entries).length < 2 ^ 32) :
    clCreateProgramWithBinary mallocs (some context) (some entries) =
      .ok (created context entries) := by
  obtain ⟨hbinaries, _, hcheck⟩ := haccepts.checked
  rw [Nat.mod_eq_of_lt hsmall] at hcheck
  have hcopy := copyBinaries_fits entries [] (List.replicate (packed entries).length 0)
    hbinaries (by simp)
  simp only [List.nil_append, List.length_nil] at hcopy
  simp only [clCreateProgramWithBinary, hcheck, haccepts.2.allocate, bind, Except.bind, hcopy,
    pure, Except.pure, created]
  simp

theorem Accepts.overflows
    (haccepts : Accepts mallocs context entries)
    (hlarge : 2 ^ 32 ≤ (packed entries).length) :
    clCreateProgramWithBinary mallocs (some context) (some entries) =
      .error .undefined := by
  obtain ⟨hbinaries, _, hcheck⟩ := haccepts.checked
  have hmod : (packed entries).length % 2 ^ 32 < 2 ^ 32 := Nat.mod_lt _ (by decide)
  have hcopy := copyBinaries_overflows entries
    (List.replicate ((packed entries).length % 2 ^ 32) 0) 0 hbinaries (Nat.zero_le _)
    (by rw [List.length_replicate]; omega)
  simp only [clCreateProgramWithBinary, hcheck, haccepts.2.allocate, bind, Except.bind, hcopy]

theorem getInfo_some {τ : Type} {valueSize paramValueSize : ℕ} {value result : List τ}
    {store : List τ → Except Failure (List τ)}
    (hsize : valueSize ≤ paramValueSize) (hstore : store value = .ok result) :
    getInfo valueSize paramValueSize (some value) store = .ok (some result, valueSize) := by
  simp [getInfo, Nat.not_lt.mpr hsize, hstore, bind, Except.bind, pure, Except.pure]

theorem memcpy_whole {τ : Type} {target source : List τ}
    (hlength : target.length = source.length) :
    memcpy target 0 source = .ok source := by
  simp [memcpy, hlength]

theorem entries_eq (answers : List BinaryEntry) :
    ∀ entries : List BinaryEntry,
      answers.map BinaryEntry.device = entries.map BinaryEntry.device →
      answers.map BinaryEntry.length = entries.map BinaryEntry.length →
      answers.map BinaryEntry.binary = entries.map BinaryEntry.binary →
      answers = entries := by
  induction answers with
  | nil =>
      intro entries hdevices _ _
      exact (List.map_eq_nil_iff.mp hdevices.symm).symm
  | cons answer answers ih =>
      intro entries hdevices hlengths hbinaries
      cases entries with
      | nil => cases hdevices
      | cons entry entries =>
          simp only [List.map_cons, List.cons.injEq] at hdevices hlengths hbinaries
          rw [ih entries hdevices.2 hlengths.2 hbinaries.2]
          cases answer
          cases entry
          simp_all

theorem roundTrips_iff (haccepts : Accepts mallocs context entries) :
    RoundTrips mallocs context entries ↔ (entries.map BinaryEntry.length).sum < 2 ^ 32 := by
  obtain ⟨hbinaries, hdevices, _⟩ := haccepts.checked
  rw [← length_packed entries hbinaries]
  constructor
  · rintro ⟨program, hcreate, _⟩
    by_contra hlarge
    rw [haccepts.overflows (Nat.not_lt.mp hlarge)] at hcreate
    cases hcreate
  · intro hsmall
    have hcreate := haccepts.creates hsmall
    have hle : entries.length ≤ context.devices.length := by
      have hlength := congrArg List.length hdevices
      rw [List.length_take, List.length_map] at hlength
      omega
    refine ⟨created context entries, hcreate, ?_, ?_, ?_, ?_⟩
    · intro paramValueSize value hsize hvalue
      apply getInfo_some hsize
      have hread := mapM_readAt context.devices entries.length hle
      rw [hdevices] at hread
      simp only [created, hread, bind, Except.bind]
      exact memcpy_whole (by rw [List.length_map, hvalue])
    · intro paramValueSize value hsize hvalue
      exact getInfo_some hsize (memcpy_whole (by simp [created, hvalue]))
    · intro paramValueSize targets hsize htargets
      exact getInfo_some hsize (storeBinaries_packed entries [] targets hbinaries htargets)
    · intro answers hanswers hlengths hanswerBinaries
      rw [entries_eq answers entries hanswers hlengths hanswerBinaries]
      exact hcreate

def allMallocs : Mallocs where
  program := true
  binarySizes := true
  binaries := true
  memory := true
  devices := true

def smallBinaries : List BinaryEntry :=
  [{ device := 4, length := 2, binary := some [1, 2], sized := by simp },
    { device := 3, length := 1, binary := some [5], sized := by simp }]

theorem smallBinaries_roundTrips :
    Accepts allMallocs ⟨[4, 3, 7]⟩ smallBinaries ∧
      RoundTrips allMallocs ⟨[4, 3, 7]⟩ smallBinaries := by
  have haccepts : Accepts allMallocs ⟨[4, 3, 7]⟩ smallBinaries :=
    ⟨⟨3, rfl⟩, rfl, rfl, rfl, rfl, rfl⟩
  exact ⟨haccepts, (roundTrips_iff haccepts).mpr (by decide)⟩

def zeroBytes (device : DeviceId) (n : ℕ) : BinaryEntry where
  device := device
  length := n
  binary := some (List.replicate n 0)
  sized := by simp

theorem accepts_zeroBytes (device : DeviceId) {n : ℕ} (hn : n ≠ 0) :
    Accepts allMallocs ⟨[device]⟩ [zeroBytes device n] := by
  refine ⟨⟨n % 2 ^ 32, ?_⟩, rfl, rfl, rfl, rfl, rfl⟩
  have htotal : totalBinarySize 0 [zeroBytes device n] 0 = .ok (n % 2 ^ 32) := by
    simp [totalBinarySize, zeroBytes, hn]
  have hdevices : checkDevices ⟨[device]⟩ 0 [zeroBytes device n] = .ok () := by
    simp [checkDevices, findDevice, readAt, zeroBytes, bind, Except.bind, pure, Except.pure]
  have hduplicates : checkDuplicates ⟨[device]⟩ [zeroBytes device n] = .ok () := by
    simp [checkDuplicates, zeroBytes]
  simp only [checkArguments, htotal, hdevices, hduplicates, bind, Except.bind, pure,
    Except.pure]

theorem zeroBytes_not_roundTrips :
    Accepts allMallocs ⟨[4]⟩ [zeroBytes 4 (2 ^ 32 + 1)] ∧
      ([zeroBytes 4 (2 ^ 32 + 1)].map BinaryEntry.length).sum < 2 ^ 64 ∧
      ¬ RoundTrips allMallocs ⟨[4]⟩ [zeroBytes 4 (2 ^ 32 + 1)] := by
  have haccepts := accepts_zeroBytes 4 (Nat.succ_ne_zero (2 ^ 32))
  have hsum : ([zeroBytes 4 (2 ^ 32 + 1)].map BinaryEntry.length).sum = 2 ^ 32 + 1 := rfl
  refine ⟨haccepts, by rw [hsum]; decide, ?_⟩
  rintro ⟨program, hcreate, _⟩
  rw [haccepts.overflows] at hcreate
  · cases hcreate
  · rw [length_packed _ haccepts.checked.1, hsum]
    decide

end RoundTrip

end Pocl.ProgramBinaries
