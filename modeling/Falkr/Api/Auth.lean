import Falkr.Api.Ledger
import Falkr.CostSpine.Aws

/-!
# Auth — tenant identity for incoming requests

A request's tenant is that of the token in its `Authorization` header, as it was issued; nothing
else of the request is looked at.  Tokens are compared byte by byte to the end, which finds the one
that was issued first under a text (`resolve_eq_lookup`).
-/

namespace Falkr

open Lib

/-! ## Tokens -/

/-- `Display` of a scope. -/
def Scope.display : Scope → String
  | read => "read"
  | ingest => "ingest"
  | post => "post"

def bytesOf (s : String) : List UInt8 :=
  s.toByteArray.data.toList

/-- The comparison that does not stop at the first difference. -/
def secretEq (a b : String) : Bool :=
  let a := bytesOf a
  let b := bytesOf b
  -- A difference in length is found at once.
  if a.length ≠ b.length then false
  else (a.zip b).foldl (fun acc pair => acc ||| (pair.1 ^^^ pair.2)) 0 == 0

/-- A table of issued keys. -/
structure StaticTokenResolver where
  tokens : List (String × TenantContext)

namespace StaticTokenResolver

def new : StaticTokenResolver where
  tokens := []

def withToken (self : StaticTokenResolver) (token : String) (tenantId : TenantId)
    (scopes : List Scope) : StaticTokenResolver where
  tokens := self.tokens ++ [(token, { tenantId := tenantId, scopes := scopes })]

def resolve (self : StaticTokenResolver) (token : String) : Option TenantContext :=
  (self.tokens.find? fun issued => secretEq issued.1 token).map Prod.snd

end StaticTokenResolver

/-! ## Requests -/

/-- The names and values of the headers, the names in lower case. -/
abbrev HeaderMap := List (String × List UInt8)

/-- A byte that `HeaderValue::to_str` admits. -/
def isVisibleAscii (b : UInt8) : Bool :=
  (32 ≤ b && b < 127) || b == 9

/-- `HeaderValue::to_str`. -/
def headerText (value : List UInt8) : Option String :=
  if value.all isVisibleAscii then some (String.ofList (value.map fun b => Char.ofNat b.toNat))
  else none

/-- The token of `Authorization: Bearer <token>`, from the first such header. -/
def bearerToken (headers : HeaderMap) : Option String := do
  let value ← headers.lookup "authorization"
  let text ← headerText value
  let rest ← stripPrefix "Bearer " text
  let token := trim rest
  if token.isEmpty then none else some token

/-- Extracts the context that a request's credential establishes. -/
def fromRequestParts (resolve : String → Option TenantContext) (headers : HeaderMap) :
    Except ApiError TenantContext :=
  match bearerToken headers with
  | none => .error .unauthenticated
  | some token =>
      match resolve token with
      | none => .error .unauthenticated
      | some ctx => .ok ctx

/-! ## The comparison -/

theorem bytesOf_injective : Function.Injective bytesOf := by
  intro a b h
  exact String.toByteArray_inj.1 (ByteArray.ext (Array.toList_inj.1 h))

/-- Bits that were found to differ stay found. -/
theorem foldl_or_eq_zero_iff : ∀ (pairs : List (UInt8 × UInt8)) (acc : UInt8),
    pairs.foldl (fun acc pair => acc ||| (pair.1 ^^^ pair.2)) acc = 0 ↔
      acc = 0 ∧ ∀ pair ∈ pairs, pair.1 = pair.2 := by
  intro pairs
  induction pairs with
  | nil => simp
  | cons pair rest ih =>
      intro acc
      rw [List.foldl_cons, ih, List.forall_mem_cons, UInt8.or_eq_zero_iff, UInt8.xor_eq_zero_iff]
      exact and_assoc

theorem eq_of_forall_zip : ∀ {a b : List UInt8}, a.length = b.length →
    (∀ pair ∈ a.zip b, pair.1 = pair.2) → a = b
  | [], [], _, _ => rfl
  | x :: a, y :: b, hlength, h => by
      rw [List.zip_cons_cons, List.forall_mem_cons] at h
      have hhead : x = y := h.1
      have htail := eq_of_forall_zip (Nat.succ.inj hlength) h.2
      rw [hhead, htail]

theorem forall_zip_self : ∀ a : List UInt8, ∀ pair ∈ a.zip a, pair.1 = pair.2 := by
  intro a
  induction a with
  | nil => simp
  | cons x a ih =>
      rw [List.zip_cons_cons, List.forall_mem_cons]
      exact ⟨rfl, ih⟩

/-- The comparison finds equal exactly the texts that are. -/
theorem secretEq_iff (a b : String) : secretEq a b = true ↔ a = b := by
  constructor
  · intro h
    by_cases hlength : (bytesOf a).length = (bytesOf b).length
    · simp only [secretEq, hlength, ne_eq, not_true_eq_false, if_false, beq_iff_eq] at h
      -- Of equal lengths, so the pairs leave out no byte of either.
      exact bytesOf_injective (eq_of_forall_zip hlength ((foldl_or_eq_zero_iff _ 0).1 h).2)
    · simp [secretEq, hlength] at h
  · rintro rfl
    simp only [secretEq, ne_eq, not_true_eq_false, if_false, beq_iff_eq]
    exact (foldl_or_eq_zero_iff _ 0).2 ⟨rfl, forall_zip_self _⟩

/-- The first token that was issued under a text is the one that counts. -/
theorem StaticTokenResolver.resolve_eq_lookup (self : StaticTokenResolver) (token : String) :
    self.resolve token = self.tokens.lookup token := by
  cases self with
  | mk tokens =>
      rw [resolve]
      induction tokens with
      | nil => rfl
      | cons issued rest ih =>
          rcases issued with ⟨text, ctx⟩
          by_cases h : text = token
          · subst h
            have hsecret : secretEq text text = true := (secretEq_iff _ _).2 rfl
            simp [hsecret]
          · have hsecret : secretEq text token = false :=
              Bool.eq_false_iff.2 fun heq => h ((secretEq_iff _ _).1 heq)
            have hne : (token == text) = false := beq_eq_false_iff_ne.2 fun heq => h heq.symm
            simpa [hsecret, List.lookup_cons, hne] using ih

/-- A credential is valid exactly if it is a token that was issued. -/
theorem fromRequestParts_eq_ok {resolver : StaticTokenResolver} {headers : HeaderMap}
    {ctx : TenantContext} :
    fromRequestParts resolver.resolve headers = .ok ctx ↔
      ∃ token, bearerToken headers = some token ∧ resolver.tokens.lookup token = some ctx := by
  unfold fromRequestParts
  cases htoken : bearerToken headers with
  | none => simp
  | some token =>
      -- Comparing secrets in constant time finds what the lookup finds.
      simp only [resolver.resolve_eq_lookup, Option.some.injEq, exists_eq_left']
      cases resolver.tokens.lookup token with
      | none => simp
      | some ctx' => simp

end Falkr
