/-
  Procurement.Model.Columns
  ─────────────────────────
  **THE TABLES ON POSTGRESQL** (the column types of `models.py`).

  `Mapped[int]` is an INTEGER, `String(n)` a VARCHAR(n), `Text` a TEXT and
  `Numeric(14, 2)` a NUMERIC(14, 2).  `stored` says for a row what its table
  holds of it, column by column; a row whose columns cannot all hold their values
  is refused.  Columns that are not modelled (the time stamps, the JSON of
  `details` and the JSON text of a stored response) hold everything.

  `postgres` is the database of `Model.Database` with these tables.
-/
import Procurement.Framework.Columns
import Procurement.Framework.Storing
import Procurement.Model.Database

namespace Procurement

open Procurement.Framework

/-! ## §1. Money. -/

/-- The `Decimal` that an amount stands for. -/
def Amount.decimal (a : Amount) : ℚ := ((a : ℤ) : ℚ) / 10 ^ 2

/-- `Numeric(14, 2)` -/
def money (a : Amount) : Option Amount := (numeric 14 2 a.decimal).map Int.toNat

/-- Fourteen digits are the amounts below 10 ^ 14. -/
theorem hasDigits_amount {a : Amount} : HasDigits 14 (a : ℤ) ↔ a < 10 ^ 14 := by
  unfold HasDigits
  rw [abs_of_nonneg (Int.natCast_nonneg a)]
  exact_mod_cast Iff.rfl

/-- An amount of at most 14 digits is held as it is, a greater one is refused. -/
theorem holds_money : Holds (fun a : Amount => a < 10 ^ 14) money := by
  intro a b
  unfold money Amount.decimal
  rw [numeric_units, Option.map_eq_some_iff]
  constructor
  · intro h
    obtain ⟨n, hn, hb⟩ := h
    obtain ⟨hd, rfl⟩ := (holds_keep _ _ _).mp hn
    exact ⟨hasDigits_amount.mp hd, hb.symm⟩
  · intro h
    exact ⟨a, (holds_keep _ _ _).mpr ⟨hasDigits_amount.mpr h.1, rfl⟩, h.2.symm⟩

/-- The values of `Field(gt=0, max_digits=14, decimal_places=2)`: positive, at most two
decimal places, at most twelve digits before them. -/
def MoneyField (x : ℚ) : Prop := 0 < x ∧ (∃ n : ℤ, x * 10 ^ 2 = n) ∧ x < 10 ^ 12

/-- They are the amounts that `OfferIn` and `CounterIn` admit. -/
theorem moneyField_iff {x : ℚ} :
    MoneyField x ↔ ∃ a : Amount, 0 < a ∧ a < 10 ^ 14 ∧ a.decimal = x := by
  unfold Amount.decimal
  constructor
  · intro h
    obtain ⟨hpos, ⟨n, hn⟩, hlt⟩ := h
    have hnpos : 0 < n := by
      have hq : (0 : ℚ) < n := by linarith
      exact_mod_cast hq
    obtain ⟨a, rfl⟩ := Int.eq_ofNat_of_zero_le (le_of_lt hnpos)
    have halt : a < 10 ^ 14 := by
      have hq : ((a : ℤ) : ℚ) < 10 ^ 14 := by linarith
      exact_mod_cast hq
    refine ⟨a, Int.natCast_pos.mp hnpos, halt, ?_⟩
    linarith
  · intro h
    obtain ⟨a, hpos, hlt, rfl⟩ := h
    have hq : (0 : ℚ) < ((a : ℤ) : ℚ) := by exact_mod_cast hpos
    have hq' : ((a : ℤ) : ℚ) < 10 ^ 14 := by exact_mod_cast hlt
    refine ⟨by linarith, ⟨a, by linarith⟩, by linarith⟩

/-- **`Numeric(14, 2)` holds every value of the field**, exactly. -/
theorem MoneyField.held {x : ℚ} (h : MoneyField x) :
    ∃ n : ℤ, numeric 14 2 x = some n ∧ (n : ℚ) / 10 ^ 2 = x := by
  obtain ⟨a, _, hlt, rfl⟩ := moneyField_iff.mp h
  refine ⟨a, ?_, rfl⟩
  unfold Amount.decimal
  rw [numeric_units]
  exact (holds_keep _ _ _).mpr ⟨hasDigits_amount.mpr hlt, rfl⟩

/-! ## §2. Rows. -/

def User.stored (r : User) : Option User := do
  let id ← integer r.id
  let email ← varchar 255 r.email
  let hashedPassword ← varchar 255 r.hashedPassword
  let _ ← varchar 20 r.role.value
  let fullName ← varchar 120 r.fullName
  return { r with id, email, hashedPassword, fullName }

def ProductRequest.stored (r : ProductRequest) : Option ProductRequest := do
  let id ← integer r.id
  let clientId ← integer r.clientId
  let productName ← varchar 200 r.productName
  let description ← text r.description
  let quantity ← integer r.quantity
  let _ ← varchar 20 r.status.value
  return { r with id, clientId, productName, description, quantity := quantity.toNat }

def Negotiation.stored (r : Negotiation) : Option Negotiation := do
  let id ← integer r.id
  let requestId ← integer r.requestId
  let supplierId ← integer r.supplierId
  let _ ← varchar 20 r.status.value
  let agreedAmount ← nullable money r.agreedAmount
  return { r with id, requestId, supplierId, agreedAmount }

def Proposal.stored (r : Proposal) : Option Proposal := do
  let id ← integer r.id
  let negotiationId ← integer r.negotiationId
  let actorId ← integer r.actorId
  let _ ← varchar 20 r.actorRole.value
  let _ ← varchar 20 r.kind.value
  let amount ← money r.amount
  let currency ← varchar 3 r.currency
  let message ← nullable text r.message
  return { r with id, negotiationId, actorId, amount, currency, message }

def AuditLog.stored (r : AuditLog) : Option AuditLog := do
  let id ← integer r.id
  let requestId ← varchar 64 r.requestId
  let actorId ← nullable integer r.actorId
  let _ ← varchar 60 r.action.value
  let _ ← varchar 40 r.entityType.value
  let entityId ← nullable integer r.entityId
  return { r with id, requestId, actorId, entityId }

def IdempotencyKey.stored (r : IdempotencyKey) : Option IdempotencyKey := do
  let key ← varchar 128 r.key
  let userId ← integer r.userId
  let method ← varchar 10 r.method
  let path ← varchar 255 r.path
  let responseStatus ← integer r.responseStatus
  return { r with key, userId, method, path, responseStatus := responseStatus.toNat }

/-! ## §3. Which rows are held. -/

/-- The values of the row are values of its columns. -/
@[mk_iff] structure User.Fits (r : User) : Prop where
  id : IsInteger r.id
  email : IsVarchar 255 r.email
  hashedPassword : IsVarchar 255 r.hashedPassword
  fullName : IsVarchar 120 r.fullName

@[mk_iff] structure ProductRequest.Fits (r : ProductRequest) : Prop where
  id : IsInteger r.id
  clientId : IsInteger r.clientId
  productName : IsVarchar 200 r.productName
  description : IsText r.description
  quantity : IsInteger r.quantity

@[mk_iff] structure Negotiation.Fits (r : Negotiation) : Prop where
  id : IsInteger r.id
  requestId : IsInteger r.requestId
  supplierId : IsInteger r.supplierId
  agreedAmount : ∀ a ∈ r.agreedAmount, a < 10 ^ 14

@[mk_iff] structure Proposal.Fits (r : Proposal) : Prop where
  id : IsInteger r.id
  negotiationId : IsInteger r.negotiationId
  actorId : IsInteger r.actorId
  amount : r.amount < 10 ^ 14
  currency : IsVarchar 3 r.currency
  message : ∀ m ∈ r.message, IsText m

@[mk_iff] structure AuditLog.Fits (r : AuditLog) : Prop where
  id : IsInteger r.id
  requestId : IsVarchar 64 r.requestId
  actorId : ∀ i ∈ r.actorId, IsInteger i
  entityId : ∀ i ∈ r.entityId, IsInteger i

@[mk_iff] structure IdempotencyKey.Fits (r : IdempotencyKey) : Prop where
  key : IsVarchar 128 r.key
  userId : IsInteger r.userId
  method : IsVarchar 10 r.method
  path : IsVarchar 255 r.path
  responseStatus : IsInteger r.responseStatus

/-- The texts of the enumerations are short. -/
theorem Role.value_varchar (role : Role) : IsVarchar 20 role.value := by
  cases role <;> decide

/-- Every status of a request fits its column. -/
theorem RequestStatus.value_varchar (status : RequestStatus) : IsVarchar 20 status.value := by
  cases status <;> decide

/-- Every status of a negotiation fits its column. -/
theorem NegotiationStatus.value_varchar (status : NegotiationStatus) :
    IsVarchar 20 status.value := by
  cases status <;> decide

/-- Every kind of a proposal fits its column. -/
theorem ProposalKind.value_varchar (kind : ProposalKind) : IsVarchar 20 kind.value := by
  cases kind <;> decide

/-- Every action of an entry fits its column. -/
theorem AuditAction.value_varchar (action : AuditAction) : IsVarchar 60 action.value := by
  cases action <;> decide

/-- Every entity of an entry fits its column. -/
theorem EntityType.value_varchar (entityType : EntityType) : IsVarchar 40 entityType.value := by
  cases entityType <;> decide

/-- A user who fits is stored as he is, and no other is. -/
theorem User.stored_eq_some {r q : User} : r.stored = some q ↔ r.Fits ∧ q = r := by
  unfold User.stored
  simp only [Option.bind_eq_bind, holds_integer.bind, (holds_varchar _).bind, Option.pure_def,
    Option.some_inj, r.role.value_varchar, true_and, User.fits_iff, and_assoc]
  tauto

/-- A request that fits is stored as it is, and no other is. -/
theorem ProductRequest.stored_eq_some {r q : ProductRequest} :
    r.stored = some q ↔ r.Fits ∧ q = r := by
  unfold ProductRequest.stored
  simp only [Option.bind_eq_bind, holds_integer.bind, (holds_varchar _).bind, holds_text.bind,
    Option.pure_def, Option.some_inj, r.status.value_varchar, true_and, Int.toNat_natCast,
    ProductRequest.fits_iff, and_assoc]
  tauto

/-- A negotiation that fits is stored as it is, and no other is. -/
theorem Negotiation.stored_eq_some {r q : Negotiation} : r.stored = some q ↔ r.Fits ∧ q = r := by
  unfold Negotiation.stored
  simp only [Option.bind_eq_bind, holds_integer.bind, (holds_varchar _).bind,
    holds_money.nullable.bind, Option.pure_def, Option.some_inj, r.status.value_varchar, true_and,
    Negotiation.fits_iff, and_assoc]
  tauto

/-- A proposal that fits is stored as it is, and no other is. -/
theorem Proposal.stored_eq_some {r q : Proposal} : r.stored = some q ↔ r.Fits ∧ q = r := by
  unfold Proposal.stored
  simp only [Option.bind_eq_bind, holds_integer.bind, (holds_varchar _).bind, holds_money.bind,
    holds_text.nullable.bind, Option.pure_def, Option.some_inj, r.actorRole.value_varchar,
    r.kind.value_varchar, true_and, Proposal.fits_iff, and_assoc]
  tauto

/-- An entry that fits is stored as it is, and no other is. -/
theorem AuditLog.stored_eq_some {r q : AuditLog} : r.stored = some q ↔ r.Fits ∧ q = r := by
  unfold AuditLog.stored
  simp only [Option.bind_eq_bind, holds_integer.bind, (holds_varchar _).bind,
    holds_integer.nullable.bind, Option.pure_def, Option.some_inj, r.action.value_varchar,
    r.entityType.value_varchar, true_and, AuditLog.fits_iff, and_assoc]
  tauto

/-- A record that fits is stored as it is, and no other is. -/
theorem IdempotencyKey.stored_eq_some {r q : IdempotencyKey} :
    r.stored = some q ↔ r.Fits ∧ q = r := by
  unfold IdempotencyKey.stored
  simp only [Option.bind_eq_bind, holds_integer.bind, (holds_varchar _).bind, Option.pure_def,
    Option.some_inj, Int.toNat_natCast, IdempotencyKey.fits_iff, and_assoc]
  tauto

/-! ## §4. Writes. -/

/-- What the tables hold of a write.  An UPDATE writes the columns it assigns. -/
def Write.stored : Write → Option Write
  | .insertUser r => r.stored.map .insertUser
  | .insertRequest r => r.stored.map .insertRequest
  | .insertNegotiation r => r.stored.map .insertNegotiation
  | .insertProposal r => r.stored.map .insertProposal
  | .insertAudit r => r.stored.map .insertAudit
  | .insertKey r => r.stored.map .insertKey
  | .decide i (.accepted a) => do
      let _ ← varchar 20 NegotiationStatus.accepted.value
      let agreedAmount ← money a
      return .decide i (.accepted agreedAmount)
  | .decide i .rejected => do
      let _ ← varchar 20 NegotiationStatus.rejected.value
      return .decide i .rejected
  | .closeRequest i => do
      let _ ← varchar 20 RequestStatus.closed.value
      return .closeRequest i

/-- The values that the write brings are values of their columns. -/
def Write.Fits : Write → Prop
  | .insertUser r => r.Fits
  | .insertRequest r => r.Fits
  | .insertNegotiation r => r.Fits
  | .insertProposal r => r.Fits
  | .insertAudit r => r.Fits
  | .insertKey r => r.Fits
  | .decide _ (.accepted a) => a < 10 ^ 14
  | .decide _ .rejected | .closeRequest _ => True

/-- **A write that fits is stored as it is**, and no other is. -/
theorem Write.stored_eq_some {w v : Write} : w.stored = some v ↔ w.Fits ∧ v = w := by
  have hmap : ∀ {ρ : Type} {row : ρ} {o : Option ρ} {fits : Prop} (insert : ρ → Write),
      (∀ q, o = some q ↔ fits ∧ q = row) → (o.map insert = some v ↔ fits ∧ v = insert row) := by
    intro ρ row o fits insert ho
    rw [Option.map_eq_some_iff]
    constructor
    · intro h
      obtain ⟨q, hq, rfl⟩ := h
      obtain ⟨hfits, rfl⟩ := (ho q).mp hq
      exact ⟨hfits, rfl⟩
    · intro h
      exact ⟨row, (ho row).mpr ⟨h.1, rfl⟩, h.2.symm⟩
  unfold Write.stored Write.Fits
  cases w with
  | insertUser r => exact hmap _ fun _ => User.stored_eq_some
  | insertRequest r => exact hmap _ fun _ => ProductRequest.stored_eq_some
  | insertNegotiation r => exact hmap _ fun _ => Negotiation.stored_eq_some
  | insertProposal r => exact hmap _ fun _ => Proposal.stored_eq_some
  | insertAudit r => exact hmap _ fun _ => AuditLog.stored_eq_some
  | insertKey r => exact hmap _ fun _ => IdempotencyKey.stored_eq_some
  | decide i d =>
      cases d with
      | accepted a =>
          simp only [Option.bind_eq_bind, (holds_varchar _).bind, holds_money.bind, Option.pure_def,
            Option.some_inj, NegotiationStatus.value_varchar, true_and]
          tauto
      | rejected =>
          simp only [Option.bind_eq_bind, (holds_varchar _).bind, Option.pure_def, Option.some_inj,
            NegotiationStatus.value_varchar, true_and]
          tauto
  | closeRequest i =>
      simp only [Option.bind_eq_bind, (holds_varchar _).bind, Option.pure_def, Option.some_inj,
        RequestStatus.value_varchar, true_and]
      tauto

/-- A write is held as it is, or refused. -/
theorem Write.stored_or (w : Write) : w.stored = some w ∨ w.stored = none := by
  cases h : w.stored with
  | none => exact Or.inr rfl
  | some v => exact Or.inl (congrArg some (Write.stored_eq_some.mp h).2)

/-- The database holds a transaction if all its rows fit. -/
theorem held_iff {ws : List Write} : Engine.Held Write.stored ws ↔ ∀ w ∈ ws, w.Fits := by
  constructor
  · intro h w hw
    exact (Write.stored_eq_some.mp (h w hw)).1
  · intro h w hw
    exact Write.stored_eq_some.mpr ⟨h w hw, rfl⟩

/-! ## §5. The database. -/

/-- **PostgreSQL**: the statements of `engine`, on tables with these columns. -/
def postgres : Engine Cmd Cmd.Resp Error Db Write Env := engine.storing Write.stored

end Procurement
