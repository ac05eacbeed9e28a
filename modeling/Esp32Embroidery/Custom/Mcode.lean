import Esp32Embroidery.Lib.CArith

/-!
# Custom M-codes

`custom_mcode_init` (`custom/custom_mcode.c`) puts three handlers in front of the
user M-code handlers that are installed already. A handler that does not know a
code is to leave it to the previous one.

`cb_check` tests `mcode == a || ... || d || e`: the last two terms are the
constants themselves, so the test never fails. `cb_execute` never calls the
previous handler.

Main results:

* `customMcode_transparent_iff`: when the three handlers behave like the previous
  ones on a code that is not theirs.
* `customMcode_swallows`: they do not when no handler was installed before.
-/

namespace Esp32Embroidery.Custom

open Esp32Embroidery.Lib

/-! ## Model -/

/-- `user_mcode_t`. -/
abbrev UserMcode := BitVec 32

/-- The constants of the core that the handlers use: the five `Custom_*` codes, which
    are not zero and differ from each other, two values of `user_mcode_type_t`, three
    of `status_code_t` and `STATE_CHECK_MODE`. -/
structure GrblConstants where
  customSetRpm : UserMcode
  customHomeSeek : UserMcode
  customAbort : UserMcode
  customLinearMotorRpm : UserMcode
  customLinearMotorTrim : UserMcode
  nonzero : ∀ code ∈ [customSetRpm, customHomeSeek, customAbort, customLinearMotorRpm,
    customLinearMotorTrim], code ≠ 0
  nodup : [customSetRpm, customHomeSeek, customAbort, customLinearMotorRpm,
    customLinearMotorTrim].Nodup
  userMCodeUnsupported : BitVec 32
  userMCodeNormal : BitVec 32
  normal_ne : userMCodeNormal ≠ userMCodeUnsupported
  statusOK : BitVec 32
  statusUnhandled : BitVec 32
  statusGcodeValueWordMissing : BitVec 32
  stateCheckMode : BitVec 32

/-- The codes that are handled here. -/
def GrblConstants.customCodes (g : GrblConstants) : List UserMcode :=
  [g.customSetRpm, g.customHomeSeek, g.customAbort, g.customLinearMotorRpm,
   g.customLinearMotorTrim]

/-- `parser_block_t`: the fields used here, and the others in `rest`. -/
structure ParserBlock (F V R : Type*) where
  userMcode : UserMcode
  wordS : Bool
  valueS : F
  outputValue : V
  rest : R
  deriving DecidableEq

section Model

variable {F V R σ : Type*}

/-- `user_mcode_ptrs_t`. A handler acts on the state `σ` of the machine; `validate`
    and `execute` get the block by reference. -/
structure UserMcodePtrs (F V R σ : Type*) where
  check : Option (UserMcode → σ → BitVec 32 × σ)
  validate : Option (ParserBlock F V R → σ → BitVec 32 × ParserBlock F V R × σ)
  execute : Option (BitVec 32 → ParserBlock F V R → σ → BitVec 32 × ParserBlock F V R × σ)

/-- The members of `grbl` that `custom_mcode_init` replaces. -/
structure GrblHandlers (F V R σ : Type*) where
  userMcode : UserMcodePtrs F V R σ
  onReportOptions : Bool → σ → σ

/-- What the handlers call, as changes of the state. The two linear motor functions
    are `none` unless `LINEAR_MOTOR` is defined; `outputValue` is the conversion to
    the type of `output_command.value`. -/
structure Actions (F V σ : Type*) where
  outputValue : F → V
  setRpm : V → σ → σ
  linearMotorSetRpm : Option (V → σ → σ)
  linearMotorTrim : Option (σ → σ)
  enqueueStop : σ → σ
  seekHome : σ → σ
  reportPlugin : String → String → σ → σ

variable (g : GrblConstants) (act : Actions F V σ) (userMcode : UserMcodePtrs F V R σ)

/-- `cb_check` (lines 161-171). The two linear motor codes are operands of `||`, not
    compared with `mcode`. -/
def cbCheck (mcode : UserMcode) (m : σ) : BitVec 32 × σ :=
  if mcode = g.customSetRpm ∨ mcode = g.customHomeSeek ∨ mcode = g.customAbort ∨
      g.customLinearMotorRpm ≠ 0 ∨ g.customLinearMotorTrim ≠ 0 then (g.userMCodeNormal, m)
  else match userMcode.check with
    | some check => check mcode m
    | none => (g.userMCodeUnsupported, m)

/-- The `switch` of `cb_validate` (lines 177-197). -/
def customValidate [CFloat F] (block : ParserBlock F V R) : BitVec 32 × ParserBlock F V R :=
  if block.userMcode = g.customSetRpm ∨ block.userMcode = g.customLinearMotorRpm then
    if block.wordS && CFloat.le (CFloat.ofRat 0) block.valueS then
      (g.statusOK, { block with outputValue := act.outputValue block.valueS })
    else (g.statusGcodeValueWordMissing, block)
  else if block.userMcode = g.customAbort ∨ block.userMcode = g.customHomeSeek ∨
      block.userMcode = g.customLinearMotorTrim then (g.statusOK, block)
  else (g.statusUnhandled, block)

/-- `cb_validate` (lines 173-200). -/
def cbValidate [CFloat F] (block : ParserBlock F V R) (m : σ) : BitVec 32 × ParserBlock F V R × σ :=
  let (state, block) := customValidate g act block
  match userMcode.validate with
  | some validate => if state = g.statusUnhandled then validate block m else (state, block, m)
  | none => (state, block, m)

/-- The `switch` of `cb_execute` (lines 209-240). -/
def customExecute (block : ParserBlock F V R) (m : σ) : σ :=
  if block.userMcode = g.customSetRpm then act.setRpm block.outputValue m
  else if block.userMcode = g.customLinearMotorRpm then
    match act.linearMotorSetRpm with
    | some setRpm => setRpm block.outputValue m
    | none => m
  else if block.userMcode = g.customLinearMotorTrim then
    match act.linearMotorTrim with
    | some trim => trim m
    | none => m
  else if block.userMcode = g.customAbort then act.enqueueStop m
  else if block.userMcode = g.customHomeSeek then act.seekHome m
  else m

/-- `cb_execute` (lines 202-243). -/
def cbExecute (state : BitVec 32) (block : ParserBlock F V R) (m : σ) :
    BitVec 32 × ParserBlock F V R × σ :=
  if state = g.stateCheckMode then (g.statusOK, block, m)
  else (g.statusOK, block, customExecute g act block m)

/-- `onReportOptions` (lines 245-251). -/
def onReportOptions (previous : Bool → σ → σ) (newopt : Bool) (m : σ) : σ :=
  let m := previous newopt m
  if newopt then m else act.reportPlugin "Custom MCode" "0.10" m

/-- `custom_mcode_init` (lines 253-262). -/
def customMcodeInit [CFloat F] (grbl : GrblHandlers F V R σ) : GrblHandlers F V R σ where
  userMcode :=
    { check := some (cbCheck g grbl.userMcode)
      validate := some (cbValidate g act grbl.userMcode)
      execute := some (cbExecute g act) }
  onReportOptions := onReportOptions act grbl.onReportOptions

/-! ## Handlers that may be absent -/

/-- The answer of a check that may be absent. -/
def UserMcodePtrs.answer (mcode : UserMcode) (m : σ) : BitVec 32 × σ :=
  match userMcode.check with
  | some check => check mcode m
  | none => (g.userMCodeUnsupported, m)

/-- The result of a validate that may be absent. -/
def UserMcodePtrs.validated (block : ParserBlock F V R) (m : σ) :
    BitVec 32 × ParserBlock F V R × σ :=
  match userMcode.validate with
  | some validate => validate block m
  | none => (g.statusUnhandled, block, m)

/-- The block and the machine after an execute that may be absent. -/
def UserMcodePtrs.executed (state : BitVec 32) (block : ParserBlock F V R) (m : σ) :
    ParserBlock F V R × σ :=
  match userMcode.execute with
  | some execute => (execute state block m).2
  | none => (block, m)

/-- The status an execute returns, if it is present. -/
def UserMcodePtrs.status (state : BitVec 32) (block : ParserBlock F V R) (m : σ) :
    Option (BitVec 32) :=
  userMcode.execute.map fun execute => (execute state block m).1

/-- `installed` behaves like `previous` in state `m` for the code of the block. -/
structure Transparent (previous installed : UserMcodePtrs F V R σ) (state : BitVec 32)
    (block : ParserBlock F V R) (m : σ) : Prop where
  check : installed.answer g block.userMcode m = previous.answer g block.userMcode m
  validate : installed.validated g block m = previous.validated g block m
  execute : installed.executed state block m = previous.executed state block m
  status : ∀ status ∈ previous.status state block m, installed.status state block m = some status

/-! ## Codes of others -/

/-- `cb_check` accepts every code and never asks the previous check. -/
theorem cbCheck_eq (mcode : UserMcode) (m : σ) :
    cbCheck g userMcode mcode m = (g.userMCodeNormal, m) := by
  have hne : g.customLinearMotorRpm ≠ 0 := g.nonzero _ (by simp)
  unfold cbCheck
  rw [if_pos (.inr (.inr (.inr (.inl hne))))]

section

variable {g} {block : ParserBlock F V R}

theorem customValidate_foreign [CFloat F] (h : block.userMcode ∉ g.customCodes) :
    customValidate g act block = (g.statusUnhandled, block) := by
  simp only [GrblConstants.customCodes, List.mem_cons, List.not_mem_nil, not_or] at h
  obtain ⟨hset, hhome, habort, hrpm, htrim, -⟩ := h
  unfold customValidate
  rw [if_neg (not_or.2 ⟨hset, hrpm⟩), if_neg (not_or.2 ⟨habort, not_or.2 ⟨hhome, htrim⟩⟩)]

theorem customExecute_foreign (h : block.userMcode ∉ g.customCodes) (m : σ) :
    customExecute g act block m = m := by
  simp only [GrblConstants.customCodes, List.mem_cons, List.not_mem_nil, not_or] at h
  obtain ⟨hset, hhome, habort, hrpm, htrim, -⟩ := h
  unfold customExecute
  rw [if_neg hset, if_neg hrpm, if_neg htrim, if_neg habort, if_neg hhome]

/-- `cb_validate` leaves the code to the previous handler. -/
theorem cbValidate_foreign [CFloat F] (h : block.userMcode ∉ g.customCodes) (m : σ) :
    cbValidate g act userMcode block m = userMcode.validated g block m := by
  simp only [cbValidate, customValidate_foreign act h, UserMcodePtrs.validated, if_true]

/-- `cb_execute` accepts the code and does nothing. -/
theorem cbExecute_foreign (h : block.userMcode ∉ g.customCodes) (state : BitVec 32) (m : σ) :
    cbExecute g act state block m = (g.statusOK, block, m) := by
  unfold cbExecute
  split_ifs
  · rfl
  · rw [customExecute_foreign act h]

end

/-! ## Main result -/

/-- For a code that is not one of the five, the handlers behave like the previous ones
    iff the previous check is present, answers `UserMCode_Normal` and does nothing
    else, and the previous execute is absent or only returns `Status_OK`. -/
theorem customMcode_transparent_iff [CFloat F] (grbl : GrblHandlers F V R σ)
    (state : BitVec 32) (block : ParserBlock F V R) (m : σ) (h : block.userMcode ∉ g.customCodes) :
    Transparent g grbl.userMcode (customMcodeInit g act grbl).userMcode state block m ↔
      (∃ check, grbl.userMcode.check = some check ∧
        check block.userMcode m = (g.userMCodeNormal, m)) ∧
      ∀ execute, grbl.userMcode.execute = some execute →
        execute state block m = (g.statusOK, block, m) := by
  constructor
  · intro ht
    have hcheck := ht.check
    simp only [customMcodeInit, UserMcodePtrs.answer, cbCheck_eq] at hcheck
    refine ⟨?_, fun execute hexec => ?_⟩
    · cases hc : grbl.userMcode.check with
      | none =>
        rw [hc] at hcheck
        exact absurd (congrArg Prod.fst hcheck) g.normal_ne
      | some check =>
        rw [hc] at hcheck
        exact ⟨check, rfl, hcheck.symm⟩
    · have hexecute := ht.execute
      have hstatus := ht.status (execute state block m).1 (by simp [UserMcodePtrs.status, hexec])
      simp only [customMcodeInit, UserMcodePtrs.executed, UserMcodePtrs.status, hexec,
        Option.map_some, Option.some.injEq, cbExecute_foreign act h] at hexecute hstatus
      exact (Prod.ext hstatus hexecute).symm
  · intro ⟨⟨check, hc, hanswer⟩, hexec⟩
    refine ⟨?_, ?_, ?_, ?_⟩
    · simp only [customMcodeInit, UserMcodePtrs.answer, cbCheck_eq, hc, hanswer]
    · show cbValidate g act grbl.userMcode block m = _
      rw [cbValidate_foreign act grbl.userMcode h]
    · simp only [customMcodeInit, UserMcodePtrs.executed, cbExecute_foreign act h]
      cases he : grbl.userMcode.execute with
      | none => rfl
      | some execute => simp only [hexec execute he]
    · intro status hstatus
      simp only [UserMcodePtrs.status, Option.mem_def, Option.map_eq_some_iff] at hstatus
      obtain ⟨execute, he, rfl⟩ := hstatus
      simp only [customMcodeInit, UserMcodePtrs.status, Option.map_some,
        cbExecute_foreign act h, hexec execute he]

end Model

/-- Codes 1 to 5 and small values for the other constants. -/
def smallConstants : GrblConstants where
  customSetRpm := 1
  customHomeSeek := 2
  customAbort := 3
  customLinearMotorRpm := 4
  customLinearMotorTrim := 5
  nonzero := by simp
  nodup := by decide
  userMCodeUnsupported := 0
  userMCodeNormal := 1
  normal_ne := by decide
  statusOK := 0
  statusUnhandled := 1
  statusGcodeValueWordMissing := 2
  stateCheckMode := 2

/-- Actions that count. -/
def countingActions : Actions ℚ ℚ ℕ where
  outputValue := id
  setRpm _ m := m + 1
  linearMotorSetRpm := none
  linearMotorTrim := none
  enqueueStop m := m + 1
  seekHome m := m + 1
  reportPlugin _ _ m := m

/-- A plugin that accepts code 100, with the given execute. -/
def plugin (execute : Option (BitVec 32 → ParserBlock ℚ ℚ Unit → ℕ →
    BitVec 32 × ParserBlock ℚ ℚ Unit × ℕ)) : GrblHandlers ℚ ℚ Unit ℕ where
  userMcode :=
    { check := some fun mcode m => (if mcode = 100 then 1 else 0, m)
      validate := none
      execute := execute }
  onReportOptions _ m := m

/-- M100 without a word. -/
def block100 : ParserBlock ℚ ℚ Unit := ⟨100, false, 0, 0, ()⟩

/-- The plugin is served without an execute, and not with one that counts. -/
theorem customMcode_transparent_plugin :
    Transparent smallConstants (plugin none).userMcode
      (customMcodeInit smallConstants countingActions (plugin none)).userMcode 0 block100 0 ∧
    ¬ Transparent smallConstants (plugin (some fun _ block m => (0, block, m + 1))).userMcode
      (customMcodeInit smallConstants countingActions
        (plugin (some fun _ block m => (0, block, m + 1)))).userMcode 0 block100 0 := by
  have hforeign : block100.userMcode ∉ smallConstants.customCodes := by decide
  constructor
  · refine (customMcode_transparent_iff _ _ _ _ _ _ hforeign).2 ⟨⟨_, rfl, rfl⟩, ?_⟩
    intro execute hexec
    cases hexec
  · intro ht
    have hexec := ((customMcode_transparent_iff _ _ _ _ _ _ hforeign).1 ht).2 _ rfl
    exact absurd (congrArg (fun r => r.2.2) hexec) (by decide)

/-- With no handler installed before, `cb_check` accepts code 100. -/
theorem customMcode_swallows :
    ¬ ∀ (grbl : GrblHandlers ℚ ℚ Unit ℕ) (state : BitVec 32) (block : ParserBlock ℚ ℚ Unit) (m : ℕ),
      block.userMcode ∉ smallConstants.customCodes →
        Transparent smallConstants grbl.userMcode
          (customMcodeInit smallConstants countingActions grbl).userMcode state block m := by
  intro h
  have ht := h ⟨⟨none, none, none⟩, fun _ m => m⟩ 0 block100 0 (by decide)
  have hcheck : (1 : BitVec 32) = 0 := congrArg Prod.fst ht.check
  exact absurd hcheck (by decide)

end Esp32Embroidery.Custom
