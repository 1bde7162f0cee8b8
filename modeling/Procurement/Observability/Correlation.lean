/-
  Procurement.Observability.Correlation
  ─────────────────────────────────────
  **THE CORRELATION ID** (`middleware.py`, `logging_config.py`,
  `services/audit.py`).

  Every request runs in its own copy of the context variable `request_id_ctx`,
  whose default is "-".  `dispatch` assigns the id, sets the variable around
  `call_next` and resets it in `finally`; the formatter and the audit writer
  read the variable whenever they run.  Requests run side by side in any order
  of steps (`Framework.Coroutine`).

      before the reset  — audit rows, audit lines, `request_failed`
      behind the reset  — `request_completed`: the variable is "-" again

  A task that `call_next` starts gets a copy of the context in which nobody
  sets the variable, so it is modelled in the context of its request.
-/
import Mathlib.Data.Rat.Defs
import Procurement.Framework.Coroutine
import Procurement.Routers.Outcome

namespace Procurement

open Procurement.Framework
open Procurement.Framework.Coroutine

/-! ## §1. Log lines. -/

inductive Level where
  | debug
  | info
  | warning
  | error
  | critical
  deriving DecidableEq, Repr

def Level.no : Level → Nat
  | .debug => 10
  | .info => 20
  | .warning => 30
  | .error => 40
  | .critical => 50

def Level.levelname : Level → String
  | .debug => "DEBUG"
  | .info => "INFO"
  | .warning => "WARNING"
  | .error => "ERROR"
  | .critical => "CRITICAL"

/-- A value of a JSON object. -/
inductive Value where
  | str (s : String)
  | num (q : ℚ)
  | null
  deriving DecidableEq, Repr

/-- A `dict`, in the order its keys were inserted. -/
abbrev Dict := List (String × Value)

/-- `d[k] = v` -/
def Dict.insert (d : Dict) (k : String) (v : Value) : Dict :=
  if d.any fun e => e.1 = k then d.map fun e => if e.1 = k then (k, v) else e else d ++ [(k, v)]

/-- `d.update(e)` -/
def Dict.update (d e : Dict) : Dict := e.foldl (fun d kv => Dict.insert d kv.1 kv.2) d

/-- `d.get(k)` -/
def Dict.get (d : Dict) (k : String) : Option Value := List.lookup k d

/-- A `LogRecord`: `ts` is its formatted time, `context` the structured extra. -/
structure LogRecord where
  ts : String
  level : Level
  name : String
  message : String
  context : Option Dict
  excInfo : Option String

/-- `JsonFormatter.format`, up to the dump: `requestId` is what
`request_id_ctx.get()` returns. -/
def format (requestId : String) (record : LogRecord) : Dict :=
  let payload : Dict :=
    [("ts", .str record.ts), ("level", .str record.level.levelname),
     ("logger", .str record.name), ("request_id", .str requestId),
     ("message", .str record.message)]
  let payload := match record.context with
    | some context => Dict.update payload context
    | none => payload
  match record.excInfo with
  | some excInfo => Dict.insert payload "exc_info" (.str excInfo)
  | none => payload

/-- What handling a request leaves behind: a line of the log, or a row of
`audit_log`. -/
inductive Output where
  | line (payload : Dict)
  | row (entry : AuditLog)
  deriving DecidableEq, Repr

/-- The id an output is tagged with. -/
def Output.requestId : Output → Option Value
  | .line payload => Dict.get payload "request_id"
  | .row entry => some (.str entry.requestId)

/-- Code that runs in the context of one request. -/
abbrev InContext (α : Type) := Coroutine String Output α

/-- `logger.log`: the root handler drops lines below the level of the root. -/
def log (root : Level) (record : LogRecord) : InContext Unit := do
  if root.no ≤ record.level.no then
    let requestId ← read
    put (.line (format requestId record))
  else return ()

/-! ## §2. The audit writer. -/

/-- A call of the audit writer; `id` is what the INSERT receives. -/
structure AuditCall where
  id : Id
  action : AuditAction
  entityType : EntityType
  entityId : Option Id
  actorId : Option Id
  details : Details
  ts : String

/-- An optional id in a JSON object. -/
def idValue : Option Id → Value
  | some i => .num (Int.cast i)
  | none => .null

/-- `audit.record`: the row, and one line. -/
def auditRecord (root : Level) (call : AuditCall) : InContext Unit := do
  let correlationId ← read
  put (.row { id := call.id, requestId := correlationId, actorId := call.actorId,
              action := call.action, entityType := call.entityType, entityId := call.entityId,
              details := call.details })
  log root
    { ts := call.ts, level := .info, name := "app.audit", message := "audit",
      context := some
        [("action", .str call.action.value), ("entity_type", .str call.entityType.value),
         ("entity_id", idValue call.entityId), ("actor_id", idValue call.actorId)],
      excInfo := none }

/-! ## §3. The middleware. -/

/-- A response: header names are lower case, as they compare. -/
structure HttpResponse where
  statusCode : Nat
  headers : List (String × String)
  deriving DecidableEq, Repr

def HttpResponse.header (r : HttpResponse) (name : String) : Option String :=
  List.lookup name r.headers

/-- `response.headers[name] = value` -/
def HttpResponse.setHeader (r : HttpResponse) (name value : String) : HttpResponse :=
  { r with headers := (name, value) :: r.headers.filter fun h => h.1 ≠ name }

/-- `response.headers.setdefault(name, value)` -/
def HttpResponse.setDefault (r : HttpResponse) (name value : String) : HttpResponse :=
  if (r.header name).isSome then r else { r with headers := r.headers ++ [(name, value)] }

def REQUEST_ID_HEADER : String := "x-request-id"

def SECURITY_HEADERS : List (String × String) :=
  [("x-content-type-options", "nosniff"), ("x-frame-options", "DENY"),
   ("referrer-policy", "no-referrer"),
   ("permissions-policy", "geolocation=(), microphone=(), camera=()")]

/-- What `dispatch` reads of a request. -/
structure WebRequest where
  method : String
  path : String
  requestId : Option String

/-- What one pass through `dispatch` receives from outside: a fresh
`uuid.uuid4()`, the formatted time of its line, and the measured duration. -/
structure Surroundings where
  uuid : String
  ts : String
  durationMs : ℚ

/-- What the application does with the request: it calls the audit writer, and
ends with a response or an exception (its traceback). -/
structure Handling where
  audits : List AuditCall
  ending : Except String HttpResponse

/-- `await call_next(request)` -/
def callNext (root : Level) (handling : Handling) : InContext (Except String HttpResponse) := do
  go handling.audits
  return handling.ending
where
  go : List AuditCall → InContext Unit
    | [] => return ()
    | call :: calls => do
        auditRecord root call
        go calls

/-- `request.headers.get(REQUEST_ID_HEADER) or str(uuid.uuid4())` -/
def assignedId (request : WebRequest) (around : Surroundings) : String :=
  (request.requestId.filter fun id => id ≠ "").getD around.uuid

/-- The line of `logger.exception("request_failed", …)`. -/
def requestFailed (request : WebRequest) (around : Surroundings) (exc : String) : LogRecord where
  ts := around.ts
  level := .error
  name := "app.access"
  message := "request_failed"
  context := some
    [("method", .str request.method), ("path", .str request.path),
     ("duration_ms", .num around.durationMs)]
  excInfo := some exc

/-- The line of `logger.info("request_completed", …)`. -/
def requestCompleted (request : WebRequest) (around : Surroundings) (response : HttpResponse) :
    LogRecord where
  ts := around.ts
  level := .info
  name := "app.access"
  message := "request_completed"
  context := some
    [("method", .str request.method), ("path", .str request.path),
     ("status", .num response.statusCode), ("duration_ms", .num around.durationMs)]
  excInfo := none

/-- The headers that every response receives. -/
def withHeaders (requestId : String) (response : HttpResponse) : HttpResponse :=
  SECURITY_HEADERS.foldl (fun r h => r.setDefault h.1 h.2)
    (response.setHeader REQUEST_ID_HEADER requestId)

/-- `RequestContextMiddleware.dispatch` -/
def dispatch (root : Level) (request : WebRequest) (around : Surroundings) (handling : Handling) :
    InContext (Except String HttpResponse) := do
  let requestId := assignedId request around
  -- `token = request_id_ctx.set(request_id)`: the token remembers the old value
  let token ← read
  write requestId
  let outcome ← callNext root handling
  match outcome with
  | .error exc =>
      log root (requestFailed request around exc)
      write token -- `finally`
      return .error exc
  | .ok response =>
      write token -- `finally`
      let response := withHeaders requestId response
      log root (requestCompleted request around response)
      return .ok response

/-! ## §4. What one request emits. -/

/-- Writing one key does not change what another key reads. -/
theorem Dict.get_insert {d : Dict} {k j : String} {v : Value} (h : k ≠ j) :
    Dict.get (Dict.insert d k v) j = Dict.get d j := by
  have hjk : (j == k) = false := by simpa using fun he : j = k => h he.symm
  have hmap : List.lookup j (d.map fun e => if e.1 = k then (k, v) else e) = List.lookup j d := by
    induction d with
    | nil => rfl
    | cons e d ih =>
        obtain ⟨a, b⟩ := e
        rw [List.map_cons]
        by_cases ha : a = k
        · subst ha
          simp only [if_true, List.lookup_cons, hjk, ih]
        · simp only [ha, if_false, List.lookup_cons, ih]
  unfold Dict.insert Dict.get
  split
  · exact hmap
  · rw [List.lookup_append]
    simp [List.lookup_cons, hjk]

/-- An update that does not name a key leaves it alone. -/
theorem Dict.get_update {d e : Dict} {j : String} (h : ∀ kv ∈ e, kv.1 ≠ j) :
    Dict.get (Dict.update d e) j = Dict.get d j := by
  unfold Dict.update
  induction e generalizing d with
  | nil => rfl
  | cons kv e ih =>
      rw [List.foldl_cons, ih fun kv' hkv => h kv' (List.mem_cons_of_mem _ hkv)]
      exact Dict.get_insert (h kv (List.mem_cons_self ..))

/-- The structured extra of the record does not name the id. -/
def LogRecord.Plain (record : LogRecord) : Prop :=
  ∀ context, record.context = some context → ∀ kv ∈ context, kv.1 ≠ "request_id"

/-- **A line carries the value of the variable.** -/
theorem format_requestId {id : String} {record : LogRecord} (h : record.Plain) :
    Dict.get (format id record) "request_id" = some (.str id) := by
  obtain ⟨ts, level, name, message, context, excInfo⟩ := record
  cases context with
  | none =>
      cases excInfo with
      | none => rfl
      | some exc => exact (Dict.get_insert (by decide)).trans rfl
  | some context =>
      have hcontext : Dict.get (Dict.update [("ts", .str ts), ("level", .str level.levelname),
          ("logger", .str name), ("request_id", .str id), ("message", .str message)] context)
            "request_id" = some (.str id) := (Dict.get_update (h context rfl)).trans rfl
      cases excInfo with
      | none => exact hcontext
      | some exc => exact (Dict.get_insert (by decide)).trans hcontext

/-- A record below the level of the root logger is dropped. -/
theorem outputs_log (root : Level) (record : LogRecord) (s : String) :
    (log root record).outputs s
      = if root.no ≤ record.level.no then [.line (format s record)] else [] := by
  unfold log
  split <;> rfl

@[simp] theorem leaves_log (root : Level) (record : LogRecord) (s : String) :
    (log root record).leaves s = s := by
  unfold log
  split <;> rfl

/-- Everything in the list is tagged with `id`. -/
def Tagged (id : String) (xs : List Output) : Prop := ∀ x ∈ xs, x.requestId = some (.str id)

/-- Outputs with the id stay so side by side. -/
theorem Tagged.append {id : String} {xs ys : List Output} (hx : Tagged id xs) (hy : Tagged id ys) :
    Tagged id (xs ++ ys) := by
  intro x h
  rcases List.mem_append.mp h with h | h
  · exact hx x h
  · exact hy x h

/-- A line is tagged with the value of the variable when it is logged. -/
theorem tagged_log {root : Level} {record : LogRecord} {s : String} (h : record.Plain) :
    Tagged s ((log root record).outputs s) := by
  rw [outputs_log]
  split
  · intro x hx
    obtain rfl := List.mem_singleton.mp hx
    exact format_requestId h
  · exact fun x hx => absurd hx List.not_mem_nil

@[simp] theorem leaves_auditRecord (root : Level) (call : AuditCall) (s : String) :
    (auditRecord root call).leaves s = s := by
  simp [auditRecord]

/-- So are the row and the line of the audit writer. -/
theorem tagged_auditRecord (root : Level) (call : AuditCall) (s : String) :
    Tagged s ((auditRecord root call).outputs s) := by
  simp only [auditRecord, outputs_bind, result_read, leaves_read, outputs_read, outputs_put,
    leaves_put, List.nil_append]
  refine Tagged.append ?_ (tagged_log ?_)
  · intro x hx
    obtain rfl := List.mem_singleton.mp hx
    rfl
  · intro context hc kv hkv
    obtain rfl := Option.some.inj hc
    have hkeys : ∀ kv ∈ [("action", Value.str call.action.value),
        ("entity_type", .str call.entityType.value), ("entity_id", idValue call.entityId),
        ("actor_id", idValue call.actorId)], kv.1 ≠ "request_id" := by simp
    exact hkeys kv hkv

/-- And everything the application emits. -/
theorem callNext_spec (root : Level) (handling : Handling) (s : String) :
    Tagged s ((callNext root handling).outputs s) ∧ (callNext root handling).leaves s = s
      ∧ (callNext root handling).result s = handling.ending := by
  have hgo : ∀ calls, Tagged s ((callNext.go root calls).outputs s)
      ∧ (callNext.go root calls).leaves s = s := by
    intro calls
    induction calls with
    | nil => exact ⟨fun x hx => absurd hx List.not_mem_nil, rfl⟩
    | cons call calls ih =>
        simp only [callNext.go, outputs_bind, leaves_bind, leaves_auditRecord]
        exact ⟨(tagged_auditRecord root call s).append ih.1, ih.2⟩
  simp only [callNext, outputs_bind, leaves_bind, result_bind, outputs_pure, leaves_pure,
    result_pure, List.append_nil]
  exact ⟨(hgo _).1, (hgo _).2, trivial⟩

/-- The access line of a failure names no id of its own. -/
theorem requestFailed_plain (request : WebRequest) (around : Surroundings) (exc : String) :
    (requestFailed request around exc).Plain := by
  intro context hc kv hkv
  obtain rfl := Option.some.inj hc
  have hkeys : ∀ kv ∈ [("method", Value.str request.method), ("path", .str request.path),
      ("duration_ms", .num around.durationMs)], kv.1 ≠ "request_id" := by simp
  exact hkeys kv hkv

/-- The access line of an answer names no id of its own. -/
theorem requestCompleted_plain (request : WebRequest) (around : Surroundings)
    (response : HttpResponse) : (requestCompleted request around response).Plain := by
  intro context hc kv hkv
  obtain rfl := Option.some.inj hc
  have hkeys : ∀ kv ∈ [("method", Value.str request.method), ("path", .str request.path),
      ("status", .num response.statusCode), ("duration_ms", .num around.durationMs)],
      kv.1 ≠ "request_id" := by simp
  exact hkeys kv hkv

section
variable {root : Level} {request : WebRequest} {around : Surroundings} {handling : Handling}
  {s : String}

/-- **A request that fails**: its access line is logged before the reset. -/
theorem outputs_failed {exc : String} (h : handling.ending = .error exc) :
    (dispatch root request around handling).outputs s
      = (callNext root handling).outputs (assignedId request around)
        ++ (log root (requestFailed request around exc)).outputs (assignedId request around) := by
  obtain ⟨_, hleaves, hresult⟩ := callNext_spec root handling (assignedId request around)
  simp only [dispatch, outputs_bind, outputs_read, leaves_read, result_read, outputs_write,
    leaves_write, List.nil_append, hleaves, hresult, h, leaves_log, outputs_pure, List.append_nil]

/-- **A request that is answered**: its access line is logged behind the reset,
in the context the request started from. -/
theorem outputs_answered {response : HttpResponse} (h : handling.ending = .ok response) :
    (dispatch root request around handling).outputs s
      = (callNext root handling).outputs (assignedId request around)
        ++ (log root (requestCompleted request around
            (withHeaders (assignedId request around) response))).outputs s := by
  obtain ⟨_, hleaves, hresult⟩ := callNext_spec root handling (assignedId request around)
  simp only [dispatch, outputs_bind, outputs_read, leaves_read, result_read, outputs_write,
    leaves_write, List.nil_append, hleaves, hresult, h, leaves_log, outputs_pure, List.append_nil]

/-- An answer is sent with the headers. -/
theorem result_answered {response : HttpResponse} (h : handling.ending = .ok response) :
    (dispatch root request around handling).result s
      = .ok (withHeaders (assignedId request around) response) := by
  obtain ⟨_, hleaves, hresult⟩ := callNext_spec root handling (assignedId request around)
  simp only [dispatch, result_bind, leaves_read, result_read, leaves_write, hleaves, hresult, h,
    result_pure]

/-- What the application raises is raised again. -/
theorem result_failed {exc : String} (h : handling.ending = .error exc) :
    (dispatch root request around handling).result s = .error exc := by
  obtain ⟨_, hleaves, hresult⟩ := callNext_spec root handling (assignedId request around)
  simp only [dispatch, result_bind, leaves_read, result_read, leaves_write, hleaves, hresult, h,
    result_pure]

end

/-- A header that is there stays when defaults are added. -/
theorem header_setDefault {r : HttpResponse} {name value : String} {hs : List (String × String)}
    (h : r.header name = some value) :
    (hs.foldl (fun r h => r.setDefault h.1 h.2) r).header name = some value := by
  induction hs generalizing r with
  | nil => exact h
  | cons d hs ih =>
      refine ih ?_
      show (r.setDefault d.1 d.2).header name = some value
      unfold HttpResponse.setDefault
      split
      · exact h
      · show List.lookup name (r.headers ++ _) = _
        rw [List.lookup_append, show List.lookup name r.headers = some value from h]
        rfl

/-- **Every response returns its id.** -/
theorem withHeaders_requestId (id : String) (r : HttpResponse) :
    (withHeaders id r).header REQUEST_ID_HEADER = some id := by
  refine header_setDefault ?_
  show List.lookup REQUEST_ID_HEADER ((REQUEST_ID_HEADER, id) :: _) = some id
  rw [List.lookup_cons_self]

/-! ## §5. Requests side by side. -/

/-- A request with everything it receives from outside. -/
structure Exchange where
  request : WebRequest
  around : Surroundings
  handling : Handling

namespace Exchange

/-- The id it is assigned. -/
def id (e : Exchange) : String := assignedId e.request e.around

def code (root : Level) (e : Exchange) : InContext (Except String HttpResponse) :=
  dispatch root e.request e.around e.handling

/-- The application raises, or lines at INFO are dropped, or the id is the
default of the variable. -/
def Correlates (root : Level) (e : Exchange) : Prop :=
  (∃ exc, e.handling.ending = .error exc) ∨ ¬ root.no ≤ Level.info.no ∨ e.id = "-"

/-- **One request alone**: everything it emits carries its id exactly when it
correlates. -/
theorem tagged_iff (root : Level) (e : Exchange) :
    Tagged e.id ((e.code root).outputs "-") ↔ e.Correlates root := by
  obtain ⟨htagged, _, _⟩ := callNext_spec root e.handling e.id
  unfold Correlates code
  cases hend : e.handling.ending with
  | error exc =>
      have hline : Tagged e.id ((log root (requestFailed e.request e.around exc)).outputs e.id) :=
        tagged_log (requestFailed_plain e.request e.around exc)
      rw [outputs_failed hend]
      exact ⟨fun _ => Or.inl ⟨exc, rfl⟩, fun _ => htagged.append hline⟩
  | ok response =>
      have hline : ∀ id, (Output.line (format id (requestCompleted e.request e.around
          (withHeaders e.id response)))).requestId = some (.str id) :=
        fun id => format_requestId (requestCompleted_plain _ _ _)
      rw [outputs_answered hend, outputs_log]
      show Tagged e.id (_ ++ if root.no ≤ Level.info.no then _ else _) ↔ _
      by_cases hinfo : root.no ≤ Level.info.no
      · -- the access line is emitted, with the default of the variable
        rw [if_pos hinfo]
        constructor
        · intro h
          have hmine : some (Value.str "-") = some (.str e.id) :=
            (hline "-").symm.trans (h _ (List.mem_append_right _ (List.mem_singleton.mpr rfl)))
          have hid : "-" = e.id := by simpa using hmine
          exact Or.inr (Or.inr hid.symm)
        · rintro (⟨exc, hexc⟩ | hno | hid)
          · exact absurd hexc (by simp)
          · exact absurd hinfo hno
          · refine htagged.append ?_
            intro x hx
            obtain rfl := List.mem_singleton.mp hx
            rw [hid]
            exact hid ▸ hline "-"
      · rw [if_neg hinfo, List.append_nil]
        exact ⟨fun _ => Or.inr (Or.inl hinfo), fun _ => htagged⟩

end Exchange

/-- The requests `es`, each in its own copy of the default context. -/
def serve {ι : Type} (root : Level) (es : ι → Exchange) :
    Tasks ι String Output (Except String HttpResponse) :=
  Tasks.start (fun i => (es i).code root) "-"

/-! ### The rows in the database. -/

/-- The audit entries among staged writes. -/
def insertedEntries (ws : List Write) : List AuditLog :=
  ws.filterMap fun w => match w with
    | .insertAudit e => some e
    | _ => none

/-- Writes add the entries that they insert. -/
theorem auditLog_view (ws : List Write) (db : Db) :
    (engine.view ws db).auditLog = db.auditLog ++ insertedEntries ws := by
  induction ws generalizing db with
  | nil => exact (List.append_nil _).symm
  | cons w ws ih =>
      rw [Engine.view_cons, ih, engine_apply]
      cases w with
      | insertAudit e => exact List.append_assoc _ [e] _
      | _ => rfl

/-- The entries among the writes carry the id `id`. -/
def Carry (id : String) (ws : List Write) : Prop := ∀ e, .insertAudit e ∈ ws → e.requestId = id

theorem Carry.nil (id : String) : Carry id [] := fun _ he => absurd he List.not_mem_nil

/-- A write of another table in front. -/
theorem Carry.other {id : String} {w : Write} {ws : List Write} (hw : ∀ e, w ≠ .insertAudit e)
    (h : Carry id ws) : Carry id (w :: ws) := by
  intro e he
  rcases List.mem_cons.mp he with he | he
  · exact absurd he.symm (hw e)
  · exact h e he

/-- An entry in front. -/
theorem Carry.entry {id : String} {entry : AuditLog} {ws : List Write} (he : entry.requestId = id)
    (h : Carry id ws) : Carry id (.insertAudit entry :: ws) := by
  intro e hmem
  rcases List.mem_cons.mp hmem with hmem | hmem
  · rw [Write.insertAudit.inj hmem]
    exact he
  · exact h e hmem

theorem Carry.append {id : String} {ws vs : List Write} (hw : Carry id ws) (hv : Carry id vs) :
    Carry id (ws ++ vs) := by
  intro e he
  rcases List.mem_append.mp he with he | he
  · exact hw e he
  · exact hv e he

/-- The entries of the loop carry the id of the request. -/
theorem supersedeWrites_carry (w : Id) (siblings : List Negotiation) :
    ∀ env : Env, Carry env.requestId (supersedeWrites w env siblings) := by
  induction siblings with
  | nil => exact fun env => Carry.nil _
  | cons sib siblings ih =>
      intro env
      exact Carry.other (by simp) (Carry.entry rfl (ih (env.pop .auditLog)))

/-- The entries of an operation carry the id of its environment. -/
theorem Produces.carry {db : Db} {user : User} {env : Env} {op : Op} {o : Produced}
    (h : Produces db user env op o) : Carry env.requestId o.writes := by
  have hone : ∀ e : AuditLog, e.requestId = env.requestId → Carry env.requestId [.insertAudit e] :=
    fun e he => Carry.entry he (Carry.nil _)
  cases h with
  | createRequest data => exact Carry.other (by simp) (hone _ rfl)
  | makeOffer data hread ho => exact Carry.other (by simp) (Carry.other (by simp) (hone _ rfl))
  | reject hread hm => exact Carry.other (by simp) (hone _ rfl)
  | counter data hread hm => exact Carry.other (by simp) (hone _ rfl)
  | accept hread hm hrow =>
      -- the winner, the request, the siblings one by one, and the acceptance
      refine Carry.other (by simp) (Carry.other (by simp) (Carry.append ?_ (hone _ ?_)))
      · exact supersedeWrites_carry _ _ env
      · exact Env.afterSupersede_requestId env _

/-- The record of a key is no entry. -/
theorem keyWrites_carry (id : String) (req : HttpRequest) (user : User) (body : Body) :
    Carry id (keyWrites req user body) := by
  unfold keyWrites
  cases req.usedKey with
  | none => exact Carry.nil _
  | some k => exact Carry.other (by simp) (Carry.nil _)

theorem mem_insertedEntries {ws : List Write} {e : AuditLog} :
    e ∈ insertedEntries ws ↔ .insertAudit e ∈ ws := by
  unfold insertedEntries
  rw [List.mem_filterMap]
  constructor
  · rintro ⟨w, hw, hsome⟩
    cases w with
    | insertAudit e' =>
        obtain rfl := Option.some.inj hsome
        exact hw
    | _ => exact absurd hsome (by simp)
  · exact fun he => ⟨_, he, rfl⟩

/-- **The rows of a call** carry the id that the audit writer reads. -/
theorem auditLog_carries (call : Call) (env : Env) (f : Nat → Bool) (db : Db) :
    ∃ rows, (call.run env f db).2.auditLog = db.auditLog ++ rows
      ∧ ∀ e ∈ rows, e.requestId = env.requestId := by
  have hnone : ∃ rows, db.auditLog = db.auditLog ++ rows ∧ ∀ e ∈ rows, e.requestId = env.requestId :=
    ⟨[], (List.append_nil _).symm, by simp⟩
  have hview : ∀ ws, Carry env.requestId ws → ∃ rows,
      (engine.view ws db).auditLog = db.auditLog ++ rows ∧ ∀ e ∈ rows, e.requestId = env.requestId :=
    fun ws hws => ⟨_, auditLog_view ws db, fun e he => hws e (mem_insertedEntries.mp he)⟩
  cases call with
  | register data =>
      show ∃ rows, (engine.request (handleRegister data) env f db).2.auditLog = _ ∧ _
      rcases register_outcome data env f db with h | ⟨_, h⟩
      · rw [h]
        exact hnone
      · rw [h]
        exact hview _ (Carry.other (by simp) (Carry.entry rfl (Carry.nil _)))
  | post req =>
      show ∃ rows, (engine.request (handle req) env f db).2.auditLog = _ ∧ _
      rcases handle_cases req env f db with ⟨e, h⟩ | ⟨_, _, _, h⟩ | ⟨_, _, hx, h⟩
      · rw [h]
        exact hnone
      · rw [h]
        exact hnone
      · rw [h]
        exact hview _ (hx.produces.carry.append (keyWrites_carry _ _ _ _))

/-! ### End to end. -/

/-- **When correlation holds end to end.**  In every interleaving of any
requests: a request that has ended has tagged everything with its id exactly
when it correlates; one that correlates never emits anything else; every
response returns the id; and the audit rows of a call in its context carry
it. -/
theorem correlation_iff {ι : Type} [DecidableEq ι] (root : Level) (es : ι → Exchange)
    (schedule : List ι) :
    (∀ i o, ((serve root es).run schedule).code i = .ret o →
      (Tagged (es i).id (((serve root es).run schedule).emitted i) ↔ (es i).Correlates root))
    ∧ (∀ i, (es i).Correlates root →
        Tagged (es i).id (((serve root es).run schedule).emitted i))
    ∧ (∀ i response, ((serve root es).run schedule).code i = .ret (.ok response) →
        response.header REQUEST_ID_HEADER = some (es i).id)
    ∧ ∀ i (call : Call) (env : Env) (f : Nat → Bool) (db : Db), env.requestId = (es i).id →
        ∃ rows, (call.run env f db).2.auditLog = db.auditLog ++ rows
          ∧ ∀ e ∈ rows, e.requestId = (es i).id := by
  have hdone : ∀ i o, ((serve root es).run schedule).code i = .ret o →
      ((serve root es).run schedule).emitted i = ((es i).code root).outputs "-"
        ∧ o = ((es i).code root).result "-" := fun i o h => Tasks.finished h
  refine ⟨?_, ?_, ?_, ?_⟩
  · intro i o h
    rw [(hdone i o h).1]
    exact (es i).tagged_iff root
  · intro i hc x hx
    have htrace : (i, x) ∈ ((serve root es).run schedule).trace := Tasks.mem_emitted.mp hx
    have hsolo := Tasks.mem_outputs htrace
    exact ((es i).tagged_iff root).mpr hc x hsolo
  · intro i response h
    have hres := (hdone i _ h).2
    unfold Exchange.code at hres
    cases hend : (es i).handling.ending with
    | error exc =>
        rw [result_failed hend] at hres
        exact absurd hres (by simp)
    | ok r =>
        rw [result_answered hend] at hres
        rw [Except.ok.inj hres]
        exact withHeaders_requestId _ r
  · intro i call env f db henv
    rw [← henv]
    exact auditLog_carries call env f db

/-- A GET that is answered with 200 while nothing is audited. -/
def answeredGet : Exchange where
  request := ⟨"GET", "/requests", none⟩
  around := ⟨"b2c1", "2024-01-01T00:00:00+0000", 3⟩
  handling := ⟨[], .ok ⟨200, []⟩⟩

/-- Its access line carries the default of the variable instead of its id. -/
theorem correlation_lost :
    ¬ ∀ (root : Level) (es : Unit → Exchange) (schedule : List Unit) (i : Unit),
      Tagged (es i).id (((serve root es).run schedule).emitted i) := by
  intro hall
  have hline := hall .info (fun _ => answeredGet) (List.replicate 8 ()) ()
  exact absurd hline (by unfold Tagged; decide +kernel)

end Procurement
