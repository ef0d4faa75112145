import Pocl.CanonicalizeBarriersSplits

/-!
# Runs and their words

A run of a function is recorded as a word: the instructions it executes, the
barriers it passes, the branches it decides and the block it leaves through.  A
terminator with one successor decides nothing and leaves no letter, so that
cutting a block in two cannot be seen.  Words are compared after merging runs of
consecutive barriers.
-/

namespace Pocl

namespace CanonicalizeBarriers

inductive Token
  | instr (id : ValueId)
  | barrier
  | branch (id : ValueId) (index : ℕ)
  | leave (id : ValueId)
  deriving DecidableEq

namespace Token

/-- Merge consecutive barriers; `last` tells whether a barrier came before. -/
def collapseAfter : Bool → List Token → List Token
  | _, [] => []
  | true, .barrier :: rest => collapseAfter true rest
  | false, .barrier :: rest => .barrier :: collapseAfter true rest
  | _, token :: rest => token :: collapseAfter false rest

def collapse (word : List Token) : List Token :=
  collapseAfter false word

/-- The word with a barrier wherever the function is left. -/
def markLeaves (word : List Token) : List Token :=
  word.flatMap fun token =>
    match token with
    | .leave id => [.barrier, .leave id]
    | _ => [token]

theorem markLeaves_append (first second : List Token) :
    markLeaves (first ++ second) = markLeaves first ++ markLeaves second :=
  List.flatMap_append

/-- One word is a beginning of the other once barriers are merged, whatever
came before. -/
def Below (first second : List Token) : Prop :=
  ∀ last, collapseAfter last first <+: collapseAfter last second

theorem Below.refl (word : List Token) : Below word word :=
  fun _ => List.prefix_refl _

theorem Below.trans {first second third : List Token}
    (hfirst : Below first second) (hsecond : Below second third) :
    Below first third :=
  fun last => (hfirst last).trans (hsecond last)

theorem Below.cons {first second : List Token} (token : Token)
    (hbelow : Below first second) : Below (token :: first) (token :: second) := by
  intro last
  cases token with
  | barrier =>
      cases last with
      | true => exact hbelow true
      | false => exact List.cons_prefix_cons.mpr ⟨rfl, hbelow true⟩
  | instr id => cases last <;> exact List.cons_prefix_cons.mpr ⟨rfl, hbelow false⟩
  | branch id index =>
      cases last <;> exact List.cons_prefix_cons.mpr ⟨rfl, hbelow false⟩
  | leave id => cases last <;> exact List.cons_prefix_cons.mpr ⟨rfl, hbelow false⟩

theorem Below.append {first second : List Token} (word : List Token)
    (hbelow : Below first second) : Below (word ++ first) (word ++ second) := by
  induction word with
  | nil => exact hbelow
  | cons token rest ih => exact ih.cons token

theorem below_nil (word : List Token) : Below [] word := by
  intro last
  cases last <;> exact List.nil_prefix

theorem below_append (word rest : List Token) : Below word (word ++ rest) := by
  have hbelow := (below_nil rest).append word
  rwa [List.append_nil] at hbelow

theorem below_of_begins {first second : List Token} (hbegins : first <+: second) :
    Below first second := by
  obtain ⟨rest, rfl⟩ := hbegins
  exact below_append first rest

theorem below_barrier (word : List Token) :
    Below (.barrier :: word) (.barrier :: .barrier :: word) := by
  intro last
  cases last <;> exact List.prefix_refl _

theorem barrier_below (word : List Token) :
    Below (.barrier :: .barrier :: word) (.barrier :: word) := by
  intro last
  cases last <;> exact List.prefix_refl _

theorem markLeaves_begins {first second : List Token} (hbegins : first <+: second) :
    markLeaves first <+: markLeaves second := by
  obtain ⟨rest, rfl⟩ := hbegins
  rw [markLeaves_append]
  exact List.prefix_append _ _

end Token

/-- The letter of an instruction. -/
def Shape.token (shape : Shape) : Token :=
  if shape.barrier then .barrier else .instr shape.id

def blockWord (func : Func) (block : BlockId) : List Token :=
  (shapes func block).map Shape.token

/-- The letter of a branch, if there was something to decide. -/
def branchWord (term : Terminator) (index : ℕ) : List Token :=
  if term.succs.length = 1 then [] else [.branch term.id index]

/-- The words of the runs from a block, stopped before some block or complete. -/
inductive Runs (func : Func) : BlockId → List Token → Prop
  | stop (block : BlockId) : Runs func block []
  | leave (block : BlockId) (hexit : func.succs block = []) :
      Runs func block
        (blockWord func block ++ [.leave (func.body block).term.id])
  | go (block : BlockId) (index : ℕ) (target : BlockId) (rest : List Token)
      (htarget : (func.succs block)[index]? = some target)
      (hrest : Runs func target rest) :
      Runs func block
        (blockWord func block ++
          (branchWord (func.body block).term index ++ rest))

/-- Every run of the first function is matched by one of the second. -/
def SimulatedBy (func after : Func) : Prop :=
  ∀ word, Runs func func.entry word →
    ∃ other, Runs after after.entry other ∧
      Token.Below (Token.markLeaves word) (Token.markLeaves other)

def SameRuns (func after : Func) : Prop :=
  SimulatedBy func after ∧ SimulatedBy after func

theorem SimulatedBy.refl (func : Func) : SimulatedBy func func :=
  fun word hruns => ⟨word, hruns, Token.Below.refl _⟩

theorem SimulatedBy.trans {first second third : Func}
    (hfirst : SimulatedBy first second) (hsecond : SimulatedBy second third) :
    SimulatedBy first third := by
  intro word hruns
  obtain ⟨middle, hmiddle, hbelow⟩ := hfirst word hruns
  obtain ⟨last, hlast, hbelowLast⟩ := hsecond middle hmiddle
  exact ⟨last, hlast, hbelow.trans hbelowLast⟩

theorem SameRuns.refl (func : Func) : SameRuns func func :=
  ⟨SimulatedBy.refl func, SimulatedBy.refl func⟩

theorem SameRuns.trans {first second third : Func}
    (hfirst : SameRuns first second) (hsecond : SameRuns second third) :
    SameRuns first third :=
  ⟨hfirst.1.trans hsecond.1, hsecond.2.trans hfirst.2⟩

theorem getElem?_succs_mem
    {func : Func} (hblocks : func.HasBlocks) {block target : BlockId} {index : ℕ}
    (hblock : block ∈ func.order)
    (htarget : (func.succs block)[index]? = some target) :
    target ∈ func.order :=
  hblocks.succs_mem block hblock target (List.mem_of_getElem? htarget)

theorem branchWord_of_single
    {func : Func} {block target : BlockId} (hsuccs : func.succs block = [target])
    (index : ℕ) : branchWord (func.body block).term index = [] := by
  apply if_pos
  change (func.succs block).length = 1
  rw [hsuccs]
  rfl

theorem exists_runs_through (func : Func) (block : BlockId) :
    ∃ rest, Runs func block (blockWord func block ++ rest) := by
  cases hsuccs : func.succs block with
  | nil => exact ⟨_, Runs.leave block hsuccs⟩
  | cons target others =>
      refine ⟨_, Runs.go block 0 target [] ?_ (Runs.stop target)⟩
      rw [hsuccs]
      rfl

namespace Splits

variable {func after : Func} {block new : BlockId} {index : ℕ}

theorem blockWord_eq (hsplits : Splits func block index after new) :
    blockWord func block = blockWord after block ++ blockWord after new := by
  unfold blockWord
  rw [hsplits.shapes_block, hsplits.shapes_new, ← List.map_append,
    List.take_append_drop]

theorem blockWord_other
    (hsplits : Splits func block index after new) {other : BlockId}
    (hblock : other ≠ block) (hnew : other ≠ new) :
    blockWord after other = blockWord func other := by
  unfold blockWord
  rw [hsplits.shapes_other other hblock hnew]

theorem branchWord_block
    (hsplits : Splits func block index after new) (choice : ℕ) :
    branchWord (after.body block).term choice = [] :=
  branchWord_of_single hsplits.succs_block choice

theorem runs_block
    (hsplits : Splits func block index after new) {word : List Token}
    (hruns : Runs after new word) :
    Runs after block (blockWord after block ++ word) := by
  have hgo := Runs.go block 0 new word (by rw [hsplits.succs_block]; rfl) hruns
  rwa [hsplits.branchWord_block, List.nil_append] at hgo

theorem runs_forward
    (hsplits : Splits func block index after new) (hblocks : func.HasBlocks)
    {start : BlockId} {word : List Token} (hruns : Runs func start word)
    (hstart : start ∈ func.order) : Runs after start word := by
  have hnot := hsplits.new_not_mem hblocks
  induction hruns with
  | stop start => exact Runs.stop start
  | leave start hexit =>
      by_cases hblock : start = block
      · subst hblock
        have hleave := Runs.leave new (hsplits.succs_new.trans hexit)
        rw [hsplits.term_new] at hleave
        rw [hsplits.blockWord_eq, List.append_assoc]
        exact hsplits.runs_block hleave
      · have hnew : start ≠ new := fun heq => hnot (heq ▸ hstart)
        rw [← hsplits.blockWord_other hblock hnew,
          ← hsplits.term_other start hblock hnew]
        exact Runs.leave start ((hsplits.succs_other hblock hnew).trans hexit)
  | go start choice target rest htarget _ ih =>
      have hrest := ih (getElem?_succs_mem hblocks hstart htarget)
      by_cases hblock : start = block
      · subst hblock
        have hgo := Runs.go new choice target rest
          (by rw [hsplits.succs_new]; exact htarget) hrest
        rw [hsplits.term_new] at hgo
        rw [hsplits.blockWord_eq, List.append_assoc]
        exact hsplits.runs_block hgo
      · have hnew : start ≠ new := fun heq => hnot (heq ▸ hstart)
        rw [← hsplits.blockWord_other hblock hnew,
          ← hsplits.term_other start hblock hnew]
        exact Runs.go start choice target rest
          (by rw [hsplits.succs_other hblock hnew]; exact htarget) hrest

/-- A run that stops between the two parts is cut short of a run before the
split. -/
theorem runs_backward
    (hsplits : Splits func block index after new) (hblocks : func.HasBlocks)
    (hblock : block ∈ func.order)
    {start : BlockId} {word : List Token} (hruns : Runs after start word) :
    (start ∈ func.order → ∃ other, Runs func start other ∧ word <+: other) ∧
      (start = new →
        ∃ other, Runs func block (blockWord after block ++ other) ∧
          word <+: other) := by
  have hnot := hsplits.new_not_mem hblocks
  induction hruns with
  | stop start =>
      constructor
      · intro _
        exact ⟨[], Runs.stop start, List.prefix_refl _⟩
      · intro _
        obtain ⟨rest, hrest⟩ := exists_runs_through func block
        rw [hsplits.blockWord_eq, List.append_assoc] at hrest
        exact ⟨_, hrest, List.nil_prefix⟩
  | leave start hexit =>
      constructor
      · intro hstart
        have hstartBlock : start ≠ block := by
          intro heq
          rw [heq, hsplits.succs_block] at hexit
          cases hexit
        have hnew : start ≠ new := fun heq => hnot (heq ▸ hstart)
        rw [hsplits.succs_other hstartBlock hnew] at hexit
        rw [hsplits.blockWord_other hstartBlock hnew,
          hsplits.term_other start hstartBlock hnew]
        exact ⟨_, Runs.leave start hexit, List.prefix_refl _⟩
      · rintro rfl
        rw [hsplits.succs_new] at hexit
        have hleave := Runs.leave block hexit
        rw [hsplits.blockWord_eq, List.append_assoc] at hleave
        rw [hsplits.term_new]
        exact ⟨_, hleave, List.prefix_refl _⟩
  | go start choice target rest htarget _ ih =>
      constructor
      · intro hstart
        by_cases hstartBlock : start = block
        · subst hstartBlock
          rw [hsplits.succs_block] at htarget
          have htargetNew : target = new :=
            List.mem_singleton.mp (List.mem_of_getElem? htarget)
          obtain ⟨other, hother, hbegins⟩ := ih.2 htargetNew
          rw [hsplits.branchWord_block, List.nil_append]
          exact ⟨_, hother, (List.prefix_append_right_inj _).mpr hbegins⟩
        · have hnew : start ≠ new := fun heq => hnot (heq ▸ hstart)
          rw [hsplits.succs_other hstartBlock hnew] at htarget
          have hmem := getElem?_succs_mem hblocks hstart htarget
          obtain ⟨other, hother, hbegins⟩ := ih.1 hmem
          rw [hsplits.blockWord_other hstartBlock hnew,
            hsplits.term_other start hstartBlock hnew]
          refine ⟨_, Runs.go start choice target other htarget hother, ?_⟩
          rw [List.prefix_append_right_inj, List.prefix_append_right_inj]
          exact hbegins
      · rintro rfl
        rw [hsplits.succs_new] at htarget
        have hmem := getElem?_succs_mem hblocks hblock htarget
        obtain ⟨other, hother, hbegins⟩ := ih.1 hmem
        have hgo := Runs.go block choice target other htarget hother
        rw [hsplits.blockWord_eq, List.append_assoc] at hgo
        refine ⟨_, hgo, ?_⟩
        rw [hsplits.term_new, List.prefix_append_right_inj,
          List.prefix_append_right_inj]
        exact hbegins

theorem sameRuns
    (hsplits : Splits func block index after new) (hblocks : func.HasBlocks)
    (hblock : block ∈ func.order) : SameRuns func after := by
  have hentry := hblocks.entry_mem
  constructor
  · intro word hruns
    rw [hsplits.entry_eq hblocks]
    exact ⟨word, hsplits.runs_forward hblocks hruns hentry, Token.Below.refl _⟩
  · intro word hruns
    rw [hsplits.entry_eq hblocks] at hruns
    obtain ⟨other, hother, hbegins⟩ :=
      (hsplits.runs_backward hblocks hblock hruns).1 hentry
    exact ⟨other, hother,
      Token.below_of_begins (Token.markLeaves_begins hbegins)⟩

end Splits

end CanonicalizeBarriers

end Pocl
