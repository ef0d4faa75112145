import Mathlib.Data.List.Nodup
import Pocl.ProgramBinariesRoundTrip

/-!
# The device lists that programs are created for

The check of a device compares it with the device of the context at the same index, so that
an accepted list is an initial segment of the context's devices, and a list that begins with
all of them and goes on is compared with what follows them in memory.
-/

namespace Pocl.ProgramDevices

open Pocl.ProgramBinaries

/-- The context is retained in the last step of the call. -/
def createRetaining (mallocs : Mallocs) (context : Option Context)
    (entries : Option (List BinaryEntry)) (references : ℕ) : Except Failure Program × ℕ :=
  match clCreateProgramWithBinary mallocs context entries with
  | .ok program => (.ok program, references + 1)
  | .error failure => (.error failure, references)

/-- Every element is a device of the context, and none occurs twice. -/
def IsValidDeviceList (context : Context) (devices : List DeviceId) : Prop :=
  (∀ device ∈ devices, device ∈ context.devices) ∧ devices.Nodup

structure AcceptsExactlyValid (context : Context) (entries : List BinaryEntry) : Prop where
  checks_defined : checkArguments (some context) (some entries) ≠ .error .undefined
  succeeds_iff : ∀ mallocs : Mallocs, mallocs.succeed →
    ((∃ program, clCreateProgramWithBinary mallocs (some context) (some entries) =
        .ok program) ↔
      IsValidDeviceList context (entries.map BinaryEntry.device))
  references_eq : ∀ mallocs references code,
    (createRetaining mallocs (some context) (some entries) references).1 =
        .error (.error code) →
      (createRetaining mallocs (some context) (some entries) references).2 = references

section Checks

variable {context : Context}

theorem findDevice_eq (context : Context) (i : ℕ) (device : DeviceId) :
    findDevice context i device =
      if context.devices = [] then .ok false
      else (readAt context.devices i).map (· == device) := by
  unfold findDevice
  cases hdevices : context.devices with
  | nil => rfl
  | cons first devices =>
      rw [if_neg (List.cons_ne_nil first devices)]
      cases hread : readAt (first :: devices) i with
      | error failure => rw [List.foldlM_cons]; rfl
      | ok other =>
          rw [foldlM_found]
          simp [Except.map]

/-- The check accepts the initial segments, and reads beyond a list that it has matched. -/
theorem checkDevices_eq (context : Context) (entries : List BinaryEntry) (i : ℕ) :
    checkDevices context i entries =
      if entries.map BinaryEntry.device <+: context.devices.drop i then .ok ()
      else if context.devices = [] ∨ ¬ context.devices.drop i <+: entries.map BinaryEntry.device
      then .error (.error .invalidDevice)
      else .error .undefined := by
  induction entries generalizing i with
  | nil => exact (if_pos List.nil_prefix).symm
  | cons entry entries ih =>
      rw [checkDevices, findDevice_eq, List.map_cons]
      by_cases hempty : context.devices = []
      · simp [hempty, bind, Except.bind]
      rw [if_neg hempty, readAt]
      by_cases hi : i < context.devices.length
      · rw [List.getElem?_eq_getElem hi, List.drop_eq_getElem_cons hi]
        simp only [List.cons_prefix_cons]
        by_cases heq : context.devices[i] = entry.device
        · simp [heq, ih, Except.map, bind, Except.bind, hempty]
        · simp [heq, Ne.symm heq, Except.map, bind, Except.bind]
      · rw [List.getElem?_eq_none (not_lt.mp hi), List.drop_eq_nil_of_le (not_lt.mp hi)]
        simp [Except.map, bind, Except.bind, hempty]

theorem totalBinarySize_eq (entries : List BinaryEntry) (i total : ℕ)
    (hlengths : ∀ entry ∈ entries, entry.length ≠ 0 ∧ entry.binary ≠ none) :
    totalBinarySize i entries (total % 2 ^ 32) =
      if entries = [] ∨ i + entries.length < 2 ^ 31 then
        .ok ((total + (entries.map BinaryEntry.length).sum) % 2 ^ 32)
      else .error .undefined := by
  induction entries generalizing i total with
  | nil => simp [totalBinarySize]
  | cons entry entries ih =>
      obtain ⟨hentry, hrest⟩ := List.forall_mem_cons.mp hlengths
      rw [totalBinarySize, if_neg (not_or.mpr hentry), Nat.mod_add_mod, ih _ _ hrest,
        List.map_cons, List.sum_cons, List.length_cons, add_assoc total]
      by_cases hi : 2 ^ 31 ≤ i + 1
      · rw [if_pos hi, if_neg (by simp; omega)]
      · rw [if_neg hi]
        by_cases hnil : entries = []
        · subst hnil
          simp
          omega
        · simp only [hnil, false_or, reduceCtorEq]
          rw [add_assoc, add_comm 1]

theorem countP_device (device : DeviceId) (entries : List BinaryEntry) :
    entries.countP (fun entry => device == entry.device) =
      (entries.map BinaryEntry.device).count device := by
  rw [List.count, List.countP_map]
  congr
  funext entry
  exact BEq.comm

theorem checkDuplicates_of_nodup {entries : List BinaryEntry}
    (hnodup : (entries.map BinaryEntry.device).Nodup) :
    checkDuplicates context entries = .ok () := by
  refine if_neg ?_
  rw [List.any_eq_true]
  rintro ⟨device, -, hcount⟩
  rw [decide_eq_true_iff, countP_device] at hcount
  exact absurd (List.nodup_iff_count_le_one.mp hnodup device) (not_le.mpr hcount)

end Checks

section Acceptance

variable {context : Context} {entries : List BinaryEntry}

theorem isValidDeviceList_of_initial (hdistinct : context.devices.Nodup)
    {devices : List DeviceId} (hinitial : devices <+: context.devices) :
    IsValidDeviceList context devices :=
  ⟨fun _ hdevice => hinitial.subset hdevice, hdistinct.sublist hinitial.sublist⟩

theorem checkArguments_eq (hne : entries ≠ [])
    (hbinaries : ∀ entry ∈ entries, entry.length ≠ 0 ∧ entry.binary ≠ none)
    (hlength : entries.length < 2 ^ 31) :
    checkArguments (some context) (some entries) = do
      checkDevices context 0 entries
      checkDuplicates context entries
      return (context, entries, (entries.map BinaryEntry.length).sum % 2 ^ 32) := by
  have htotal := totalBinarySize_eq entries 0 0 hbinaries
  rw [if_pos (.inr ((Nat.zero_add _).trans_lt hlength)), Nat.zero_mod, Nat.zero_add] at htotal
  obtain ⟨entry, rest, rfl⟩ := List.exists_cons_of_ne_nil hne
  simp only [checkArguments, htotal]
  rfl

theorem checkArguments_of_initial (hdistinct : context.devices.Nodup) (hne : entries ≠ [])
    (hbinaries : ∀ entry ∈ entries, entry.length ≠ 0 ∧ entry.binary ≠ none)
    (hlength : entries.length < 2 ^ 31)
    (hinitial : entries.map BinaryEntry.device <+: context.devices) :
    checkArguments (some context) (some entries) =
      .ok (context, entries, (entries.map BinaryEntry.length).sum % 2 ^ 32) := by
  rw [checkArguments_eq hne hbinaries hlength, checkDevices_eq, List.drop_zero, if_pos hinitial,
    checkDuplicates_of_nodup (isValidDeviceList_of_initial hdistinct hinitial).2]
  rfl

/-- The outcome of the checks for a list that is not an initial segment of the context's. -/
theorem checkArguments_of_not_prefix (hne : entries ≠ [])
    (hbinaries : ∀ entry ∈ entries, entry.length ≠ 0 ∧ entry.binary ≠ none)
    (hlength : entries.length < 2 ^ 31)
    (hinitial : ¬ entries.map BinaryEntry.device <+: context.devices) :
    checkArguments (some context) (some entries) =
      if context.devices = [] ∨ ¬ context.devices <+: entries.map BinaryEntry.device
      then .error (.error .invalidDevice)
      else .error .undefined := by
  rw [checkArguments_eq hne hbinaries hlength, checkDevices_eq, List.drop_zero, if_neg hinitial]
  split <;> rfl

theorem checkArguments_of_long
    (hbinaries : ∀ entry ∈ entries, entry.length ≠ 0 ∧ entry.binary ≠ none)
    (hlength : 2 ^ 31 ≤ entries.length) :
    checkArguments (some context) (some entries) = .error .undefined := by
  have hne : entries ≠ [] := List.ne_nil_of_length_pos (by omega)
  have htotal := totalBinarySize_eq entries 0 0 hbinaries
  rw [if_neg (by simp only [hne, false_or]; omega), Nat.zero_mod] at htotal
  obtain ⟨entry, rest, rfl⟩ := List.exists_cons_of_ne_nil hne
  simp only [checkArguments, htotal]
  rfl

theorem not_created_of_checkArguments_error {failure : Failure} (mallocs : Mallocs)
    (hcheck : checkArguments (some context) (some entries) = .error failure) :
    ¬ ∃ program, clCreateProgramWithBinary mallocs (some context) (some entries) =
        .ok program := by
  rintro ⟨program, hcreate⟩
  rw [clCreateProgramWithBinary, hcheck] at hcreate
  cases hcreate

theorem created_iff_of_initial (hdistinct : context.devices.Nodup) (hne : entries ≠ [])
    (hbinaries : ∀ entry ∈ entries, entry.length ≠ 0 ∧ entry.binary ≠ none)
    (hlength : entries.length < 2 ^ 31)
    (hinitial : entries.map BinaryEntry.device <+: context.devices)
    {mallocs : Mallocs} (hmallocs : mallocs.succeed) :
    (∃ program, clCreateProgramWithBinary mallocs (some context) (some entries) =
        .ok program) ↔
      (entries.map BinaryEntry.length).sum < 2 ^ 32 := by
  have haccepts : Accepts mallocs context entries :=
    ⟨⟨_, checkArguments_of_initial hdistinct hne hbinaries hlength hinitial⟩, hmallocs⟩
  rw [← length_packed entries fun entry hentry => (hbinaries entry hentry).2]
  constructor
  · rintro ⟨program, hcreate⟩
    by_contra hlarge
    rw [haccepts.overflows (not_lt.mp hlarge)] at hcreate
    cases hcreate
  · exact fun hsmall => ⟨_, haccepts.creates hsmall⟩

theorem createRetaining_references (mallocs : Mallocs) (references : ℕ) (code : ClError)
    (herror : (createRetaining mallocs (some context) (some entries) references).1 =
      .error (.error code)) :
    (createRetaining mallocs (some context) (some entries) references).2 = references := by
  unfold createRetaining at herror ⊢
  cases hcreate : clCreateProgramWithBinary mallocs (some context) (some entries) with
  | ok program => rw [hcreate] at herror; cases herror
  | error failure => rfl

theorem allMallocs_succeed : allMallocs.succeed :=
  ⟨rfl, rfl, rfl, rfl, rfl⟩

theorem acceptsExactlyValid_iff (hdistinct : context.devices.Nodup)
    (hbinaries : ∀ entry ∈ entries, entry.length ≠ 0 ∧ entry.binary ≠ none) :
    AcceptsExactlyValid context entries ↔
      entries ≠ [] ∧ entries.length < 2 ^ 31 ∧
        ((entries.map BinaryEntry.device <+: context.devices ∧
            (entries.map BinaryEntry.length).sum < 2 ^ 32) ∨
          (¬ IsValidDeviceList context (entries.map BinaryEntry.device) ∧
            (context.devices = [] ∨
              ¬ context.devices <+: entries.map BinaryEntry.device))) := by
  by_cases hne : entries = []
  · subst hne
    refine iff_of_false (fun haccepts => ?_) fun hcondition => hcondition.1 rfl
    exact not_created_of_checkArguments_error allMallocs rfl
      ((haccepts.succeeds_iff allMallocs allMallocs_succeed).mpr
        ⟨by simp, List.nodup_nil⟩)
  by_cases hlength : entries.length < 2 ^ 31
  · by_cases hinitial : entries.map BinaryEntry.device <+: context.devices
    · have hvalid := isValidDeviceList_of_initial hdistinct hinitial
      simp only [ne_eq, hne, not_false_eq_true, hlength, hinitial, hvalid, true_and, not_true,
        false_and, or_false]
      constructor
      · intro haccepts
        rw [← created_iff_of_initial hdistinct hne hbinaries hlength hinitial allMallocs_succeed]
        exact (haccepts.succeeds_iff allMallocs allMallocs_succeed).mpr hvalid
      · intro hsmall
        refine ⟨?_, fun mallocs hmallocs => iff_of_true ?_ hvalid, createRetaining_references⟩
        · rw [checkArguments_of_initial hdistinct hne hbinaries hlength hinitial]
          simp
        · exact (created_iff_of_initial hdistinct hne hbinaries hlength hinitial hmallocs).mpr
            hsmall
    · have hcheck := checkArguments_of_not_prefix hne hbinaries hlength hinitial
      simp only [ne_eq, hne, not_false_eq_true, hlength, hinitial, true_and, false_and, false_or]
      constructor
      · intro haccepts
        constructor
        · intro hvalid
          have hcreated := (haccepts.succeeds_iff allMallocs allMallocs_succeed).mpr hvalid
          split at hcheck
          · exact not_created_of_checkArguments_error allMallocs hcheck hcreated
          · exact not_created_of_checkArguments_error allMallocs hcheck hcreated
        · by_contra hinside
          rw [if_neg hinside] at hcheck
          exact haccepts.checks_defined hcheck
      · rintro ⟨hinvalid, hinside⟩
        rw [if_pos hinside] at hcheck
        refine ⟨?_, fun mallocs _ => iff_of_false ?_ hinvalid, createRetaining_references⟩
        · rw [hcheck]
          simp
        · exact not_created_of_checkArguments_error mallocs hcheck
  · refine iff_of_false (fun haccepts => ?_) fun hcondition => hlength hcondition.2.1
    exact haccepts.checks_defined (checkArguments_of_long hbinaries (not_lt.mp hlength))

/-! ## Failing and accepted lists -/

def oneByte (device : DeviceId) : BinaryEntry where
  device := device
  length := 1
  binary := some [0]
  sized := by simp

theorem oneByte_nonempty (devices : List DeviceId) :
    ∀ entry ∈ devices.map oneByte, entry.length ≠ 0 ∧ entry.binary ≠ none := by
  intro entry hentry
  obtain ⟨device, -, rfl⟩ := List.mem_map.mp hentry
  exact ⟨Nat.one_ne_zero, Option.some_ne_none _⟩

theorem acceptsExactlyValid_first_device :
    AcceptsExactlyValid ⟨[4, 3]⟩ [oneByte 4] :=
  (acceptsExactlyValid_iff (by decide) (oneByte_nonempty [4])).mpr
    ⟨by decide, by decide, .inl ⟨by decide, by decide⟩⟩

/-- The second device of a context is rejected, and a repeated device is looked for beyond
the context's devices. -/
theorem not_acceptsExactlyValid_second_device :
    ¬ AcceptsExactlyValid ⟨[4, 3]⟩ [oneByte 3] ∧
      ¬ AcceptsExactlyValid ⟨[4]⟩ [oneByte 4, oneByte 4] := by
  constructor
  · intro haccepts
    have hcheck : checkArguments (some ⟨[4, 3]⟩) (some [oneByte 3]) =
        .error (.error .invalidDevice) := rfl
    exact not_created_of_checkArguments_error allMallocs hcheck
      ((haccepts.succeeds_iff allMallocs allMallocs_succeed).mpr ⟨by decide, by decide⟩)
  · exact fun haccepts => haccepts.checks_defined rfl

end Acceptance

end Pocl.ProgramDevices
