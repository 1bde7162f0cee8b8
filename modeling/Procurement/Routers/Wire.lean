/-
  Procurement.Routers.Wire
  ────────────────────────
  **THE TEXTS OF THE ANSWERS** (`schemas.py`, `routers/_helpers.py`, `main.py`).

  A response model is dumped in the order of its fields.  `idempotent` stores
  the text of `model_dump_json`, and what it sends is another text: the dump of
  what `json.loads` reads from the stored one, with the separators of
  `JSONResponse`.

      model ── model_dump_json ──> stored text ── loads, render ──> sent text

  The model of the endpoints keeps the response in place of the stored text.
  Here are the texts, and that nothing is lost on the way: the two texts are the
  same, and the response can be told from either.
-/
import Procurement.Framework.JsonTexts
import Procurement.Routers.Reads
import Procurement.Runs.Retries

namespace Procurement

open Procurement.Framework

/-! ## §1. Fields. -/

theorem digit_lt (n : Nat) : n % 10 < 10 := Nat.mod_lt n (Nat.succ_pos 9)

/-- The decimal that a column with two places holds. -/
def money2 (a : Amount) : Decimal where
  negative := false
  whole := a / 100
  fraction := [⟨a / 10 % 10, digit_lt (a / 10)⟩, ⟨a % 10, digit_lt a⟩]
  fraction_ne := List.cons_ne_nil _ _

/-- A decimal is dumped as a string, so that it stays exact. -/
def amountText (a : Amount) : String := String.ofList (Json.renderFloat (money2 a))

section
variable (iso : Time → String)

/-- The dump of a field that may be null. -/
def orNull {α : Type} (dump : α → Json) : Option α → Json
  | none => .null
  | some a => dump a

def UserOut.dump (out : UserOut) : Json :=
  .obj [("id", .int out.id), ("email", .str out.email), ("full_name", .str out.fullName),
    ("role", .str out.role.value)]

/-- `iso` is the ISO 8601 text of a time. -/
def ProductRequestOut.dump (out : ProductRequestOut) : Json :=
  .obj [("id", .int out.id), ("client_id", .int out.clientId),
    ("product_name", .str out.productName), ("description", .str out.description),
    ("quantity", .int out.quantity), ("status", .str out.status.value),
    ("created_at", .str (iso out.createdAt))]

def NegotiationOut.fields (out : NegotiationOut) : List (String × Json) :=
  [("id", .int out.id), ("request_id", .int out.requestId), ("supplier_id", .int out.supplierId),
    ("status", .str out.status.value),
    ("agreed_amount", orNull (fun a => .str (amountText a)) out.agreedAmount),
    ("last_actor_id", orNull .int out.lastActorId), ("created_at", .str (iso out.createdAt))]

def ProposalOut.dump (out : ProposalOut) : Json :=
  .obj [("id", .int out.id), ("actor_id", .int out.actorId),
    ("actor_role", .str out.actorRole.value), ("kind", .str out.kind.value),
    ("amount", .str (amountText out.amount)), ("currency", .str out.currency),
    ("message", orNull .str out.message), ("created_at", .str (iso out.createdAt))]

/-- The inherited fields stand first. -/
def NegotiationDetailOut.dump (out : NegotiationDetailOut) : Json :=
  .obj (out.toNegotiationOut.fields iso ++ [("proposals", .arr (out.proposals.map (·.dump iso)))])

def Body.dump : Body → Json
  | .productRequest out => out.dump iso
  | .negotiation out => .obj (out.fields iso)

def ReadBody.dump : ReadBody → Json
  | .item body => body.dump iso
  | .items bodies => .arr (bodies.map (·.dump iso))
  | .detail out => out.dump iso

/-! ## §2. Texts. -/

/-- No blanks, and nothing outside ASCII is escaped: the style of
`model_dump_json`, and that of `JSONResponse.render`. -/
def compact : Json.Style := ⟨false, false⟩

def compactText (v : Json) : String := String.ofList (v.render compact)

def loads (text : String) : Option Json := Json.parse text.toList

/-- Status and body of an answer, as they go over the wire. -/
structure Sent where
  status : Nat
  text : String
  deriving DecidableEq, Repr

/-- `JSONResponse(status_code=status, content=content)`. -/
def jsonResponse (status : Nat) (content : Json) : Sent := ⟨status, compactText content⟩

/-- `model.model_dump_json()`, and what `response_body` holds. -/
def Body.storedText (body : Body) : String := compactText (body.dump iso)

/-- Both ends of `idempotent`: the response is made from the stored text, which
`json.loads` may refuse. -/
def Response.sent (response : Response) : Option Sent :=
  (loads (response.body.storedText iso)).map fun content => jsonResponse response.status content

end

/-- The content of an error: that of `domain_error_handler`, or that of the
framework for its own exceptions. -/
def Error.content : Error → Option Json
  | .notFound message => some (.obj [("code", .str "not_found"), ("message", .str message)])
  | .permissionDenied message =>
      some (.obj [("code", .str "permission_denied"), ("message", .str message)])
  | .conflict message => some (.obj [("code", .str "conflict"), ("message", .str message)])
  | .http _ detail => some (.obj [("detail", .str detail)])
  | .server => none

/-- An exception that no handler takes is answered with a plain text. -/
def Error.sent (e : Error) : Sent :=
  match e.content with
  | some content => jsonResponse e.statusCode content
  | none => ⟨e.statusCode, "Internal Server Error"⟩

/-! ## §3. Nothing is lost. -/

/-- A stored text is read back. -/
theorem loads_compactText (v : Json) : loads (compactText v) = some v := by
  unfold loads compactText
  rw [String.toList_ofList]
  exact Json.parse_render compact v

/-- So it determines its value. -/
theorem compactText_injective : Function.Injective compactText := by
  intro v w h
  have hsame := loads_compactText v
  rw [h, loads_compactText] at hsame
  exact (Option.some.inj hsame).symm

/-- An amount is told by its decimal. -/
theorem money2_injective : Function.Injective money2 := by
  intro a b h
  have hdigits : ∀ m n : Nat, m / 100 = n / 100 → m / 10 % 10 = n / 10 % 10 → m % 10 = n % 10 →
      m = n := by omega
  have hfraction := congrArg Decimal.fraction h
  simp only [money2, List.cons.injEq, and_true, Fin.mk.injEq] at hfraction
  exact hdigits a b (congrArg Decimal.whole h) hfraction.1 hfraction.2

/-- An amount is told by its text. -/
theorem amountText_injective : Function.Injective amountText := by
  intro a b h
  have hchars : Json.renderFloat (money2 a) = Json.renderFloat (money2 b) := by
    have htoList := congrArg String.toList h
    unfold amountText at htoList
    rwa [String.toList_ofList, String.toList_ofList] at htoList
  have hfloat := @Json.render_injective compact (.float (money2 a)) (.float (money2 b)) hchars
  exact money2_injective (Json.float.inj hfloat)

theorem RequestStatus.value_injective : Function.Injective RequestStatus.value := by
  intro a b h
  cases a <;> cases b <;> first | rfl | exact absurd h (by decide)

theorem NegotiationStatus.value_injective : Function.Injective NegotiationStatus.value := by
  intro a b h
  cases a <;> cases b <;> first | rfl | exact absurd h (by decide)

/-- A field that may be null tells what it is, if nothing else is null. -/
theorem orNull_injective {α : Type} {dump : α → Json} (hdump : Function.Injective dump)
    (hnull : ∀ a, dump a ≠ .null) : Function.Injective (orNull dump) := by
  intro a b h
  cases a with
  | none =>
      cases b with
      | none => rfl
      | some b => exact absurd h.symm (hnull b)
  | some a =>
      cases b with
      | none => exact absurd h (hnull a)
      | some b => exact congrArg some (hdump h)

section
variable {iso : Time → String} (hiso : Function.Injective iso)
include hiso

/-- A request is told by its dump. -/
theorem ProductRequestOut.dump_injective : Function.Injective (ProductRequestOut.dump iso) := by
  intro a b h
  unfold ProductRequestOut.dump at h
  simp only [Json.obj.injEq, List.cons.injEq, Prod.mk.injEq, true_and, and_true, Json.int.injEq,
    Json.str.injEq] at h
  obtain ⟨hid, hclient, hname, hdescription, hquantity, hstatus, hcreated⟩ := h
  cases a
  cases b
  simp only [ProductRequestOut.mk.injEq]
  exact ⟨hid, hclient, hname, hdescription, Int.ofNat.inj hquantity,
    RequestStatus.value_injective hstatus, hiso hcreated⟩

/-- A negotiation is told by its fields. -/
theorem NegotiationOut.fields_injective : Function.Injective (NegotiationOut.fields iso) := by
  intro a b h
  unfold NegotiationOut.fields at h
  simp only [List.cons.injEq, Prod.mk.injEq, true_and, and_true, Json.int.injEq,
    Json.str.injEq] at h
  obtain ⟨hid, hrequest, hsupplier, hstatus, hagreed, hlast, hcreated⟩ := h
  have hamount := orNull_injective
    (fun x y hxy => amountText_injective (Json.str.inj hxy)) (fun _ => by simp) hagreed
  have hactor := orNull_injective (fun x y hxy => Json.int.inj hxy) (fun _ => by simp) hlast
  cases a
  cases b
  simp only [NegotiationOut.mk.injEq]
  exact ⟨hid, hrequest, hsupplier, NegotiationStatus.value_injective hstatus, hamount, hactor,
    hiso hcreated⟩

/-- The second field tells a request from a negotiation. -/
theorem Body.dump_injective : Function.Injective (Body.dump iso) := by
  intro a b h
  cases a with
  | productRequest a =>
      cases b with
      | productRequest b => exact congrArg _ (ProductRequestOut.dump_injective hiso h)
      | negotiation b =>
          simp [Body.dump, ProductRequestOut.dump, NegotiationOut.fields] at h
  | negotiation a =>
      cases b with
      | productRequest b =>
          simp [Body.dump, ProductRequestOut.dump, NegotiationOut.fields] at h
      | negotiation b => exact congrArg _ (NegotiationOut.fields_injective hiso (Json.obj.inj h))

/-- **The stored text determines the response**, so it may stand for it. -/
theorem Body.storedText_injective : Function.Injective (Body.storedText iso) :=
  fun _ _ h => Body.dump_injective hiso (compactText_injective h)

end

/-- **What is sent is what is stored.** -/
theorem Response.sent_eq (iso : Time → String) (response : Response) :
    response.sent iso = some ⟨response.status, response.body.storedText iso⟩ := by
  unfold Response.sent Body.storedText
  rw [loads_compactText]
  rfl

/-! ## §4. Keys and bytes. -/

/-- Under a key that has a record, whatever succeeds is that record. -/
theorem success_of_record {q : Posted} {db : Db} {k : String} {record : IdempotencyKey}
    {r : Response} (hk : q.req.usedKey = some k) (hrec : db.idempotencyKey k = some record)
    (hr : (q.run db).1 = .ok r) : r = ⟨record.responseStatus, record.responseBody⟩ := by
  rcases q.cases db with ⟨e, hrun⟩ | ⟨user, record', hrep, hrun⟩ | ⟨user, o, hx, _⟩
  · rw [hrun] at hr
    exact absurd hr (by simp)
  · obtain ⟨k', hk', hrec'⟩ := hrep.stored
    obtain rfl : k = k' := Option.some.inj (hk.symm.trans hk')
    obtain rfl : record = record' := Option.some.inj (hrec.symm.trans hrec')
    rw [hrun] at hr
    exact (Except.ok.inj hr).symm
  -- the key would have to be unused
  · rw [hx.unused k hk] at hrec
    exact absurd hrec (by simp)

/-- Two successes under one key, the second one later. -/
theorem same_response {db : Db} {ps : List Posted} {i j : Nat} {p q : Posted} {k : String}
    {r r' : Response} (hij : i < j) (hp : ps[i]? = some p) (hq : ps[j]? = some q)
    (hkp : p.req.usedKey = some k) (hkq : q.req.usedKey = some k)
    (hr : (answers db ps)[i]? = some (.ok r)) (hr' : (answers db ps)[j]? = some (.ok r')) :
    r' = r := by
  have hj : j < ps.length := (List.getElem?_eq_some_iff.mp hq).1
  have hlen : (ps.take j).length = j := by
    rw [List.length_take]
    omega
  have hp' : (ps.take j)[i]? = some p := by rw [List.getElem?_take_of_lt hij, hp]
  have hfirst : (answers db (ps.take j))[i]? = some (.ok r) := by
    have hsplit : answers db ps
        = answers db (ps.take j) ++ answers (stateAfter db (ps.take j)) (ps.drop j) := by
      rw [← answers_append, List.take_append_drop]
    rw [hsplit, List.getElem?_append_left (by rw [answers_length]; omega)] at hr
    exact hr
  -- the record of the first one is there when the second one comes
  obtain ⟨user, record, hrep, hresp⟩ := replays_later hp' hkp hfirst (by omega)
  obtain ⟨k', hk', hrec⟩ := hrep.stored
  obtain rfl : k = k' := Option.some.inj (hkp.symm.trans hk')
  rw [answers_getElem? hq] at hr'
  rw [hresp]
  exact success_of_record hkq hrec (Option.some.inj hr')

/-- **Retries are byte for byte identical.**  Any two successes of a run under
the same key have the same bytes, whoever sent them, on whatever paths and with
whatever faults in between.  The bytes are the stored ones, and they determine
the response. -/
theorem key_determines_bytes {iso : Time → String} (hiso : Function.Injective iso) {db : Db}
    {ps : List Posted} {i j : Nat} {p q : Posted} {k : String} {r r' : Response}
    (hp : ps[i]? = some p) (hq : ps[j]? = some q) (hkp : p.req.usedKey = some k)
    (hkq : q.req.usedKey = some k) (hr : (answers db ps)[i]? = some (.ok r))
    (hr' : (answers db ps)[j]? = some (.ok r')) :
    r'.sent iso = r.sent iso
      ∧ (∃ record, (stateAfter db ps).idempotencyKey k = some record
        ∧ r.sent iso = some ⟨record.responseStatus, record.responseBody.storedText iso⟩)
      ∧ ∀ other : Response, other.sent iso = r.sent iso → other = r := by
  have hi : i < ps.length := (List.getElem?_eq_some_iff.mp hp).1
  refine ⟨?_, ?_, ?_⟩
  · rcases Nat.lt_trichotomy i j with hij | rfl | hij
    · rw [same_response hij hp hq hkp hkq hr hr']
    · rw [Except.ok.inj (Option.some.inj (hr.symm.trans hr'))]
    · rw [same_response hij hq hp hkq hkp hr' hr]
  · obtain ⟨user, record, hrep, hresp⟩ := replays_later hp hkp hr hi
    obtain ⟨k', hk', hrec⟩ := hrep.stored
    obtain rfl : k = k' := Option.some.inj (hkp.symm.trans hk')
    exact ⟨record, hrec, by rw [hresp, Response.sent_eq]⟩
  · intro other hother
    rw [Response.sent_eq, Response.sent_eq] at hother
    simp only [Option.some.injEq, Sent.mk.injEq] at hother
    have hbody := Body.storedText_injective hiso hother.2
    cases other
    cases r
    simp only [Response.mk.injEq]
    exact ⟨hother.1, hbody⟩

/-! ### The accept that is sent twice. -/

def epochMinute : List Char := "1970-01-01T00:00:".toList

/-- The seconds of that minute. -/
def epochText (t : Time) : String :=
  String.ofList (epochMinute
    ++ ((if t < 10 then '0' :: Nat.toDigits 10 t else Nat.toDigits 10 t) ++ ['Z']))

example : epochText 7 = "1970-01-01T00:00:07Z" := by decide +kernel

theorem toDigits_ten_injective : Function.Injective (Nat.toDigits 10) := by
  intro m n h
  have hback := congrArg (fun ds => Nat.ofDigitChars 10 ds 0) h
  simpa using hback

theorem epochText_injective : Function.Injective epochText := by
  intro t u h
  have hchars := congrArg String.toList h
  unfold epochText at hchars
  rw [String.toList_ofList, String.toList_ofList] at hchars
  have hseconds := List.append_cancel_right (List.append_cancel_left hchars)
  -- a number from ten on has no zero in front
  have hpadded : ∀ n : Nat, ¬ n < 10 → ∀ ds, Nat.toDigits 10 n ≠ '0' :: ds := by
    intro n hn ds hds
    obtain ⟨c, cs, hcs, hc⟩ := Json.toDigits_cons n (by omega)
    rw [hds] at hcs
    exact hc (List.cons.inj hcs).1.symm
  by_cases ht : t < 10
  · by_cases hu : u < 10
    · rw [if_pos ht, if_pos hu] at hseconds
      exact toDigits_ten_injective (List.cons.inj hseconds).2
    · rw [if_pos ht, if_neg hu] at hseconds
      exact absurd hseconds.symm (hpadded u hu _)
  · by_cases hu : u < 10
    · rw [if_neg ht, if_pos hu] at hseconds
      exact absurd hseconds (hpadded t ht _)
    · rw [if_neg ht, if_neg hu] at hseconds
      exact toDigits_ten_injective hseconds

/-- Both acceptances are answered. -/
theorem acceptTwice_succeeds : ∃ r r', (answers market (acceptTwice.map Item.post))[0]? = some (.ok r)
    ∧ (answers market (acceptTwice.map Item.post))[1]? = some (.ok r') := by
  have hkinds : (answers market (acceptTwice.map Item.post)).map
      (fun o => match o with | .ok _ => true | .error _ => false) = [true, true] := by
    decide +kernel
  generalize answers market (acceptTwice.map Item.post) = os at hkinds
  match os, hkinds with
  | [.ok r, .ok r'], _ => exact ⟨r, r', rfl, rfl⟩

/-- Both answers have the same bytes. -/
theorem key_determines_bytes_market : ∃ r r',
    (answers market (acceptTwice.map Item.post))[0]? = some (.ok r)
      ∧ (answers market (acceptTwice.map Item.post))[1]? = some (.ok r')
      ∧ r'.sent epochText = r.sent epochText := by
  obtain ⟨r, r', hr, hr'⟩ := acceptTwice_succeeds
  have hkey : (some "k").filter (fun k : String => k ≠ "") = some "k" := by decide
  obtain ⟨p, hp, hkp⟩ : ∃ p, (acceptTwice.map Item.post)[0]? = some p ∧ p.req.usedKey = some "k" :=
    ⟨_, rfl, hkey⟩
  obtain ⟨q, hq, hkq⟩ : ∃ q, (acceptTwice.map Item.post)[1]? = some q ∧ q.req.usedKey = some "k" :=
    ⟨_, rfl, hkey⟩
  exact ⟨r, r', hr, hr', (key_determines_bytes epochText_injective hp hq hkp hkq hr hr').1⟩

end Procurement
