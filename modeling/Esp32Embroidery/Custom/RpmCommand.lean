import Esp32Embroidery.Custom.Mcode
import Esp32Embroidery.Motor.Ramp

/-!
# The speed command of the linear motor

`cb_validate` stores the S word as a 32-bit integer, `cb_execute` passes it to
`linear_motor_set_rpm`, whose parameter is an `int16_t`. The range tests come after the
narrowing, so they see the low 16 bits of the speed.

Main results:

* `target_rpmCommand`: the target after the command.
* `rpmCommand_target_iff`: it is the requested speed, limited to `max_rpm`, for the speeds
  up to 32767 and for those whose low 16 bits are at least `max_rpm` and below 32768.
-/

namespace Esp32Embroidery.Custom

open Esp32Embroidery.Lib Esp32Embroidery.Motor

/-! ## Model -/

/-- The actions with the linear motor of `Motor.Spindle`: `output_command.value` is an
    `int32_t`, and the call in `cb_execute` (line 217) narrows it. -/
def linearMotorActions (others : Actions ℚ ℤ (Spindle ℚ)) : Actions ℚ ℤ (Spindle ℚ) :=
  { others with
    outputValue S := int32 (CFloat.toInt S)
    linearMotorSetRpm := some fun value s => s.linearMotorSetRpm (int16 value) }

variable {R : Type*} (g : GrblConstants) (others : Actions ℚ ℤ (Spindle ℚ))
  (userMcode : UserMcodePtrs ℚ ℤ R (Spindle ℚ)) {block : ParserBlock ℚ ℤ R}

/-! ## The handlers on this code -/

theorem GrblConstants.setRpm_ne_linearMotorRpm : g.customLinearMotorRpm ≠ g.customSetRpm := by
  intro heq
  have hnodup := g.nodup
  rw [List.nodup_cons] at hnodup
  exact hnodup.1 (by simp [heq])

/-- `cb_validate` accepts a speed that is not negative and stores its integer part. -/
theorem cbValidate_rpm (hstatus : g.statusOK ≠ g.statusUnhandled)
    (hcode : block.userMcode = g.customLinearMotorRpm) (hword : block.wordS = true)
    (hS : 0 ≤ block.valueS) (hmax : ⌊block.valueS⌋ < 2 ^ 31) (m : Spindle ℚ) :
    cbValidate g (linearMotorActions others) userMcode block m =
      (g.statusOK, { block with outputValue := ⌊block.valueS⌋ }, m) := by
  have hle : (block.wordS && CFloat.le (CFloat.ofRat 0) block.valueS) = true := by
    rw [hword, Bool.true_and]
    exact decide_eq_true hS
  have hswitch : customValidate g (linearMotorActions others) block =
      (g.statusOK, { block with outputValue := ⌊block.valueS⌋ }) := by
    unfold customValidate
    rw [if_pos (.inr hcode), if_pos hle]
    show (g.statusOK, { block with outputValue := int32 (CFloat.toInt block.valueS) }) = _
    rw [CFloat.toInt_of_nonneg hS, int32_of_fits ⟨by linarith [Int.floor_nonneg.2 hS], hmax⟩]
  unfold cbValidate
  rw [hswitch]
  cases userMcode.validate with
  | none => rfl
  | some validate => exact if_neg hstatus

/-- `cb_execute` outside check mode. -/
theorem cbExecute_rpm (block : ParserBlock ℚ ℤ R)
    (hcode : block.userMcode = g.customLinearMotorRpm) {state : BitVec 32}
    (hstate : state ≠ g.stateCheckMode) (m : Spindle ℚ) :
    cbExecute g (linearMotorActions others) state block m =
      (g.statusOK, block, m.linearMotorSetRpm (int16 block.outputValue)) := by
  have hne : block.userMcode ≠ g.customSetRpm := by
    rw [hcode]
    exact g.setRpm_ne_linearMotorRpm
  unfold cbExecute customExecute
  rw [if_neg hstate, if_neg hne, if_pos hcode]
  rfl

/-! ## The narrowing -/

theorem int16_cases (x : ℤ) :
    int16 x = x % 65536 ∧ x % 65536 < 32768 ∨
      int16 x = x % 65536 - 65536 ∧ 32768 ≤ x % 65536 := by
  have hdef : int16 x = if x % 65536 < 32768 then x % 65536 else x % 65536 - 65536 :=
    Int.bmod_def x (2 ^ 16)
  rw [hdef]
  split_ifs <;> omega

/-- The range tests of `linear_motor_set_rpm` on the narrowed value. -/
theorem rampGoal_int16_iff {x : ℤ} (h0 : 0 ≤ x) :
    rampGoal (int16 x) = min x lmConfig.maxRpm ↔
      x ≤ 32767 ∨ lmConfig.maxRpm ≤ x % 65536 ∧ x % 65536 ≤ 32767 := by
  unfold rampGoal
  rw [maxRpm_eq]
  rcases int16_cases x with ⟨hlow, hlt⟩ | ⟨hhigh, hge⟩
  · rw [hlow]
    omega
  · rw [hhigh]
    omega

/-! ## The command -/

/-- The target of the linear motor after `cb_validate` in the state `m` of the machine and
    `cb_execute` in its state `m'`. -/
def rpmCommandTarget (state : BitVec 32) (block : ParserBlock ℚ ℤ R) (m m' : Spindle ℚ) : ℤ :=
  let validated := cbValidate g (linearMotorActions others) userMcode block m
  (cbExecute g (linearMotorActions others) state validated.2.1 m').2.2.linear.targetRpm

theorem target_rpmCommand (hstatus : g.statusOK ≠ g.statusUnhandled)
    (hcode : block.userMcode = g.customLinearMotorRpm) (hword : block.wordS = true)
    (hS : 0 ≤ block.valueS) (hmax : ⌊block.valueS⌋ < 2 ^ 31) {state : BitVec 32}
    (hstate : state ≠ g.stateCheckMode) (m m' : Spindle ℚ) :
    rpmCommandTarget g others userMcode state block m m' = rampGoal (int16 ⌊block.valueS⌋) := by
  have hexec := cbExecute_rpm g others { block with outputValue := ⌊block.valueS⌋ } hcode hstate m'
  unfold rpmCommandTarget
  rw [cbValidate_rpm g others userMcode hstatus hcode hword hS hmax]
  simp only
  rw [hexec, targetRpm_linearMotorSetRpm]

/-- For every S word that `cb_validate` accepts and whose integer part is a value of the
    32-bit `output_command.value`, in every state of the machine other than check mode, and
    whatever happens between the two handlers: the target is the requested speed, limited to
    `max_rpm`, exactly if the speed is at most 32767 or its low 16 bits are at least `max_rpm`
    and at most 32767. -/
theorem rpmCommand_target_iff (hstatus : g.statusOK ≠ g.statusUnhandled)
    (hcode : block.userMcode = g.customLinearMotorRpm) (hword : block.wordS = true)
    (hS : 0 ≤ block.valueS) (hmax : ⌊block.valueS⌋ < 2 ^ 31) {state : BitVec 32}
    (hstate : state ≠ g.stateCheckMode) (m m' : Spindle ℚ) :
    (cbValidate g (linearMotorActions others) userMcode block m).1 = g.statusOK ∧
      (rpmCommandTarget g others userMcode state block m m' =
          min ⌊block.valueS⌋ lmConfig.maxRpm ↔
        ⌊block.valueS⌋ ≤ 32767 ∨
          lmConfig.maxRpm ≤ ⌊block.valueS⌋ % 65536 ∧ ⌊block.valueS⌋ % 65536 ≤ 32767) := by
  constructor
  · rw [cbValidate_rpm g others userMcode hstatus hcode hword hS hmax]
  · rw [target_rpmCommand g others userMcode hstatus hcode hword hS hmax hstate]
    exact rampGoal_int16_iff (Int.floor_nonneg.2 hS)

/-! ## Two speeds -/

/-- Actions without effects beside those of the linear motor. -/
def noActions : Actions ℚ ℤ (Spindle ℚ) where
  outputValue := CFloat.toInt
  setRpm _ m := m
  linearMotorSetRpm := none
  linearMotorTrim := none
  enqueueStop m := m
  seekHome m := m
  reportPlugin _ _ m := m

/-- The command with the speed `valueS` among the codes of `smallConstants`. -/
def rpmBlock (valueS : ℚ) : ParserBlock ℚ ℤ Unit := ⟨4, true, valueS, 0, ()⟩

/-- No handlers were installed before. -/
def noHandlers : UserMcodePtrs ℚ ℤ Unit (Spindle ℚ) := ⟨none, none, none⟩

/-- 32768 rpm stop the motor, 32767 rpm turn it at its maximum. -/
theorem rpmCommand_target_narrowed :
    rpmCommandTarget smallConstants noActions noHandlers 0 (rpmBlock 32768) .init .init ≠
        min ⌊(rpmBlock 32768).valueS⌋ lmConfig.maxRpm ∧
      rpmCommandTarget smallConstants noActions noHandlers 0 (rpmBlock 32768) .init .init <
        rpmCommandTarget smallConstants noActions noHandlers 0 (rpmBlock 32767) .init .init := by
  have htarget : ∀ S : ℚ, 0 ≤ S → ⌊S⌋ < 2 ^ 31 →
      rpmCommandTarget smallConstants noActions noHandlers 0 (rpmBlock S) .init .init =
        rampGoal (int16 ⌊S⌋) := by
    intro S hS hmax
    exact target_rpmCommand smallConstants noActions noHandlers (by decide) rfl rfl hS hmax
      (by decide) .init .init
  rw [htarget 32768 (by norm_num) (by norm_num), htarget 32767 (by norm_num) (by norm_num)]
  decide +kernel

/-- 1500.5 rpm. -/
theorem rpmCommand_target_half :
    rpmCommandTarget smallConstants noActions noHandlers 0 (rpmBlock 1500.5) .init .init =
      min ⌊(rpmBlock 1500.5).valueS⌋ lmConfig.maxRpm :=
  (rpmCommand_target_iff smallConstants noActions noHandlers (by decide) rfl rfl
    (by decide +kernel) (by decide +kernel) (by decide) .init .init).2.2 (.inl (by decide +kernel))

end Esp32Embroidery.Custom
