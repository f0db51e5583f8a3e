import MevRelay.UseCase.Error

/-!
# RegisterValidator

A registration that its own key signed is stored under that key, whatever was there before.
-/

namespace MevRelay

open Atomic

namespace RegisterValidatorUseCase

/-- `RegisterValidatorUseCase::execute`. -/
def execute (R : Relay) (registration : SignedValidatorRegistration) :
    StoreProg (Except UseCaseError Unit) := do
  if !registration.verifySignature R.prims R.builderDomain then
    return .error .invalidValidatorSignature
  storage (.setValidatorRegistration registration.message.pubkey registration.message)
  return .ok ()

/-- The only call stores the message under its own key, after its signature was verified. -/
def Calls (R : Relay) (registration : SignedValidatorRegistration) : StoreOp → Prop
  | .setValidatorRegistration key reg =>
    key = registration.message.pubkey ∧ reg = registration.message ∧
      registration.verifySignature R.prims R.builderDomain = true
  | _ => False

theorem execute_always (R : Relay) (registration : SignedValidatorRegistration) :
    (execute R registration).Always (fun _ => Calls R registration) (fun _ _ => True) [] := by
  unfold execute
  cases hsigned : registration.verifySignature R.prims R.builderDomain with
  | false => trivial
  | true => exact ⟨⟨rfl, rfl, hsigned⟩, fun _ => trivial⟩

end RegisterValidatorUseCase

end MevRelay
