import Mathlib

/-!
# Signed tokens

A service without a session store hands its state out in signed tokens and takes back what it can
verify. `Signing valid` is such a scheme with the secret fixed: `sign` makes a token of a payload,
and `check` at a time gives the payload back while `valid` holds of it.

What a signature promises is about tokens that the service did not make: nobody who does not have
the secret comes up with one that passes. `Genuine issued token` says so of one token that is
presented, `issued` being the payloads signed so far.

* `Genuine.accepted`: what passes was issued, and is valid;
* `genuine_sign`: what was issued is genuine.
-/

namespace Llmops.Lib

variable {π τ T : Type*}

/-- A signature scheme under one secret. -/
structure Signing (valid : τ → π → Bool) (T : Type*) where
  sign : π → T
  check : τ → T → Option π
  check_sign : ∀ t p, check t (sign p) = if valid t p then some p else none

namespace Signing

variable {valid : τ → π → Bool} (S : Signing valid T)

/-- A token that passes the check is one of those issued. -/
def Genuine (t : τ) (issued : Set π) (token : T) : Prop :=
  ∀ p, S.check t token = some p → ∃ q ∈ issued, S.sign q = token

variable {S} {t : τ} {issued : Set π} {token : T} {p q : π}

/-- **What passes was issued.** -/
theorem Genuine.accepted (h : S.Genuine t issued token) (hp : S.check t token = some p) :
    p ∈ issued ∧ valid t p = true ∧ token = S.sign p := by
  obtain ⟨q, hq, rfl⟩ := h p hp
  rw [S.check_sign] at hp
  split_ifs at hp with hvalid
  obtain rfl := Option.some.inj hp
  exact ⟨hq, hvalid, rfl⟩

/-- Every issued token is genuine. -/
theorem genuine_sign (hp : p ∈ issued) : S.Genuine t issued (S.sign p) := fun _ _ => ⟨p, hp, rfl⟩

/-- Payloads that have different tokens can be signed so. -/
noncomputable def ofInjective (valid : τ → π → Bool) (sign : π → T)
    (hsign : Function.Injective sign) : Signing valid T where
  sign := sign
  check t token := by
    classical
    exact if h : ∃ p, sign p = token ∧ valid t p = true then some h.choose else none
  check_sign t p := by
    classical
    have hiff : (∃ q, sign q = sign p ∧ valid t q = true) ↔ valid t p = true :=
      ⟨fun ⟨q, hq, hvalid⟩ => hsign hq ▸ hvalid, fun hvalid => ⟨p, rfl, hvalid⟩⟩
    by_cases hvalid : valid t p = true
    · have h := hiff.mpr hvalid
      rw [dif_pos h, if_pos hvalid, hsign h.choose_spec.1]
    · rw [dif_neg (mt hiff.mp hvalid), if_neg hvalid]

end Signing

/-! ## Texts as tokens -/

instance countableString : Countable String := by
  have hchar : Function.Injective Char.toNat := fun c d h => Char.toNat_inj.mp h
  have : Countable Char := hchar.countable
  exact Function.Injective.countable fun s t h => String.toList_inj.mp h

/-- A text for each payload. -/
theorem exists_text_injective [Countable π] :
    ∃ text : π → String, Function.Injective text ∧ ∀ p, text p ≠ "" := by
  obtain ⟨index, hindex⟩ := exists_injective_nat π
  refine ⟨fun p => .ofList (List.replicate (index p + 1) 'x'), fun p q h => hindex ?_, fun p h => ?_⟩
  · have hlength := congrArg (fun s => s.toList.length) h
    simpa using hlength
  · have hlength := congrArg (fun s => s.toList.length) h
    simp at hlength

end Llmops.Lib
