/-
  Procurement.Frontend.Feedback
  ─────────────────────────────
  **WHAT A PAGE SAYS IS TRUE.**

  Any number of pages are used at once, each by one user, and the server is used by others
  besides.  What a page shows has been the state some time, for each panel and each list one
  time.  What it reports has happened, and has not been undone since (`Reports`).

      page_truthful — whatever is pressed, answered, delayed or lost
-/
import Procurement.Frontend.Reports

namespace Procurement

open Procurement.Framework

/-! ## §1. A page tells the truth. -/

/-- It was so some time. -/
def Was (P : Db → Prop) (db : Db) : Prop := ∃ db₀, Reachable db₀ ∧ P db₀ ∧ Steps db₀ db

/-- What was so some time was so some time. -/
theorem Was.later {P : Db → Prop} {db db' : Db} (h : Was P db) (hrun : Steps db db') : Was P db' := by
  obtain ⟨db₀, hdb, hP, hsteps⟩ := h
  exact ⟨db₀, hdb, hP, hsteps.trans hrun⟩

/-- The panel is the detail that the state had some time. -/
structure Panel.Seen (user : User) (panel : Panel) (db : Db) : Prop where
  view : panel.view = renderTurn user.id panel.neg
  was : Was (fun db => ∃ n, db.negotiationFor user n.id = .ok n ∧ panel.neg = db.detail n) db

/-- The lists are the listings that states have had some time. -/
def Lists.Seen (user : User) (lists : Lists) (db : Db) : Prop :=
  ∃ requests negs, lists = listsOf user.out requests negs
    ∧ Was (fun db => (ReadOp.listRequests defaultPage).answer db user = .ok (.items requests)) db
    ∧ Was (fun db => (ReadOp.listNegotiations defaultPage).answer db user = .ok (.items negs)) db

/-- Whoever this header names is the user. -/
def Site.Names (S : Site) (user : User) (authorization : Option String) : Prop :=
  ∀ now caller, S.subject now authorization = .ok caller → caller = user.id

/-- What a page of this user shows is true: its token is his, its panel and its lists have
been so, and what its toast is about is so now. -/
structure Truthful (S : Site) (t : Texts) (user : User) (page : Screen) (db : Db) : Prop where
  bearer : S.Names user page.authorization
  who : ∀ out, page.user = some out → out = user.out
  detail : ∀ panel, page.detail = some panel → panel.Seen user db
  lists : ∀ lists, page.lists = some lists → lists.Seen user db
  toast : ∀ shown, page.toast = some shown →
    shown.text = shown.about.text t ∧ shown.about.Holds user db
  modal : page.modal.hidden = true ↔ page.modal.onConfirm = none

/-- **What is true stays true.** -/
theorem Truthful.later {S : Site} {t : Texts} {user : User} {page : Screen} {db db' : Db}
    (h : Truthful S t user page db) (hdb : Reachable db) (hrun : Steps db db') :
    Truthful S t user page db' where
  bearer := h.bearer
  who := h.who
  detail := fun panel hpanel => ⟨(h.detail panel hpanel).view, (h.detail panel hpanel).was.later hrun⟩
  lists := fun lists hlists => by
    obtain ⟨requests, negs, heq, hr, hn⟩ := h.lists lists hlists
    exact ⟨requests, negs, heq, hr.later hrun, hn.later hrun⟩
  toast := fun shown hshown =>
    ⟨(h.toast shown hshown).1, (h.toast shown hshown).2.stays hdb hrun⟩
  modal := h.modal

/-- The token of a user names nobody else, and no token names nobody. -/
theorem Site.names_of_token {S : Site} (hS : S.Lawful) (hbearer : S.bearer none = none) {user : User}
    {page : Screen} (h : ∀ text, page.token = some text →
      ∃ issued out, S.tokenFor issued user = .ok out ∧ out.accessToken = text) :
    S.Names user page.authorization := by
  have hnobody : S.Names user none := by
    intro now caller hsub
    unfold Site.subject at hsub
    rw [hbearer] at hsub
    exact absurd hsub (by simp)
  unfold Screen.authorization
  cases htoken : page.token.filter fun token => token ≠ "" with
  | none => exact hnobody
  | some text =>
      obtain ⟨issued, out, ht, rfl⟩ := h text (Option.filter_eq_some_iff.mp htoken).1
      intro now caller hsub
      rw [Option.map_some, subject_tokenFor hS ht (hS.bearer out.accessToken) now] at hsub
      split at hsub
      · exact (Except.ok.inj hsub).symm
      · exact absurd hsub (by simp)

/-! ## §2. What an answer tells. -/

/-- A fetch with this header. -/
def Endpoint.fetch (endpoint : Endpoint) (authorization key : Option String) : Fetch :=
  ⟨endpoint, authorization, key⟩

/-- A good answer is not an error in other words. -/
theorem ok_of_mapError {ε ε' α : Type} {f : ε → ε'} {x : Except ε α} {a : α}
    (h : .ok a = x.mapError f) : x = .ok a := by
  cases x with
  | ok b => exact congrArg Except.ok (Except.ok.inj h).symm
  | error e => exact absurd h (by simp [Except.mapError])

/-- A good answer is the one of a calm moment. -/
theorem answered_calm {α : Type} {p : Prog α} {env : Env} {f : Nat → Bool} {db : Db}
    {g : α → Delivered} {a : Delivered} (h : (engine.request p env f db).1.map g = .ok a) :
    ∃ out, (engine.request p env f db).1 = .ok out ∧ (engine.request p env calm db).1 = .ok out
      ∧ a = g out := by
  cases ho : (engine.request p env f db).1 with
  | error e =>
      rw [ho] at h
      exact absurd h (by simp [Except.map])
  | ok out =>
      rw [ho] at h
      exact ⟨out, rfl, engine.request_ok ho ▸ ho, (Except.ok.inj h).symm⟩

section
variable {S : Site} {user : User} {authorization key : Option String} {s s' : Server}
  {a : Delivered} {r : Fetch} {endpoint : Endpoint}

/-- What a request of a page does to the state. -/
theorem Serving.steps {a : Except String Delivered} (h : Serving S r s a s') : Steps s.db s'.db := by
  obtain ⟨arrival, _, _, m, _, hf, _, _, hs'⟩ := h
  exact Serves.steps ⟨arrival, m, hf, hs'⟩

/-- **A good answer is an answer to the user**, for a header that names nobody else. -/
theorem Serving.granted {route : Route} (hown : S.Names user authorization)
    (hr : ∀ source detail, (endpoint.fetch authorization key).arrival source detail
      = some (.authorized authorization route))
    (h : Serving S (endpoint.fetch authorization key) s (.ok a) s') :
    ∃ m, (∀ k, key = some k → s.db.idempotencyKey k = none)
      ∧ (route.run user.id m s.db).1 = .ok a ∧ s'.db = (route.run user.id m s.db).2 := by
  obtain ⟨arrival, source, detail, m, harrival, _, hkeys, ha, hs'⟩ := h
  obtain rfl := Option.some.inj (harrival.symm.trans (hr source detail))
  have hok := ok_of_mapError ha
  cases hsubject : S.subject m.wall authorization with
  | error e =>
      rw [serve_authorized_error hsubject] at hok
      exact absurd hok (by simp)
  | ok caller =>
      obtain rfl := hown _ _ hsubject
      rw [serve_authorized_ok hsubject] at hok hs'
      exact ⟨m, hkeys, hok, congrArg Server.db hs'⟩

/-- `GET /auth/me` answers who he is. -/
theorem Serving.me (hown : S.Names user authorization) (huser : s.db.user user.id = some user)
    (h : Serving S (Endpoint.me.fetch authorization key) s (.ok a) s') : a = .user user.out := by
  obtain ⟨m, _, hok, _⟩ := h.granted hown fun _ _ => rfl
  change (engine.request (handleMe user.id) m.env m.faults s.db).1.map Delivered.user = .ok a at hok
  obtain ⟨out, _, hcalm, rfl⟩ := answered_calm hok
  rw [handleMe_answers, huser] at hcalm
  rw [Except.ok.inj hcalm]

/-- A read answers what he may read. -/
theorem Serving.read {op : ReadOp} (hown : S.Names user authorization)
    (huser : s.db.user user.id = some user)
    (hr : ∀ source detail, (endpoint.fetch authorization key).arrival source detail
      = some (.authorized authorization (.read op)))
    (h : Serving S (endpoint.fetch authorization key) s (.ok a) s') :
    ∃ body, a = .body body ∧ op.answer s.db user = .ok body := by
  obtain ⟨m, _, hok, _⟩ := h.granted hown hr
  change (engine.request (handleRead ⟨user.id, op⟩) m.env m.faults s.db).1.map Delivered.body = .ok a
    at hok
  obtain ⟨body, _, hcalm, rfl⟩ := answered_calm hok
  rw [handleRead_answers] at hcalm
  unfold ReadRequest.answer at hcalm
  rw [huser] at hcalm
  exact ⟨body, rfl, hcalm⟩

/-- A post has been executed for him.  A key that no response is stored for cannot bring one
back. -/
theorem Serving.post {path : String} {op : Op} (hown : S.Names user authorization)
    (huser : s.db.user user.id = some user)
    (hr : ∀ source detail, (endpoint.fetch authorization key).arrival source detail
      = some (.authorized authorization (.post key path op)))
    (h : Serving S (endpoint.fetch authorization key) s (.ok a) s') :
    ∃ env o, Produces s.db user env op o ∧ ∀ said : Said,
      said.Holds user (engine.view o.writes s.db) → said.Holds user s'.db := by
  obtain ⟨m, hkeys, hok, hs'⟩ := h.granted hown hr
  change (engine.request (handle ⟨user.id, key, path, op⟩) m.env m.faults s.db).1.map
    Delivered.response = .ok a at hok
  change s'.db = (engine.request (handle ⟨user.id, key, path, op⟩) m.env m.faults s.db).2 at hs'
  rcases handle_cases ⟨user.id, key, path, op⟩ m.env m.faults s.db with
    ⟨e, hrun⟩ | ⟨_, _, hreplays, _⟩ | ⟨user', o, hx, hrun⟩
  · rw [hrun] at hok
    exact absurd hok (by simp [Except.map])
  · -- a replay needs a stored response
    obtain ⟨k, hk, hstored⟩ := hreplays.stored
    have hkey : key = some k := (Option.filter_eq_some_iff.mp hk).1
    exact absurd ((hkeys k hkey).symm.trans hstored) (by simp)
  · obtain rfl : user' = user := Option.some.inj (hx.caller.symm.trans huser)
    rw [hrun] at hs'
    refine ⟨m.env, o, hx.produces, fun said hsaid => ?_⟩
    rw [hs']
    exact hsaid.committed _

/-- **A login with his email hands out his token**, since no email is given twice. -/
theorem Serving.login {payload : Option LoginIn} (hs : Reachable s.db)
    (huser : s.db.user user.id = some user)
    (hown : ∀ credentials, payload = some credentials → credentials.email = user.email)
    {out : TokenOut} (h : Serving S ((Endpoint.login payload).fetch authorization key) s
      (.ok (.token out)) s') : ∃ issued, S.tokenFor issued user = .ok out := by
  obtain ⟨arrival, source, detail, m, harrival, _, _, ha, _⟩ := h
  have hok := ok_of_mapError ha
  cases payload with
  | none =>
      obtain rfl : Arrival.invalidLogin source detail = arrival := Option.some.inj harrival
      obtain ⟨e, he⟩ := (invalidLogin_state S s m source detail).2
      exact absurd (he.symm.trans hok) (by simp)
  | some credentials =>
      obtain rfl : Arrival.login source credentials = arrival := Option.some.inj harrival
      obtain ⟨found, hfound, htoken, _⟩ := login_answered (Prod.ext hok rfl)
      have hrow : s.db.userByEmail user.email = some found := by
        rw [← hown credentials rfl]
        exact (Db.loggedIn_iff.mp hfound).1
      have hsame : s.db.userByEmail user.email = some user :=
        lookup_of_mem hs.emails (lookup_mem huser)
      obtain rfl := Option.some.inj (hrow.symm.trans hsame)
      exact ⟨m.wall, htoken⟩

/-! ## §3. What a request makes true. -/

/-- A good answer to this request makes this true, from the state `d` on. -/
def Endpoint.Makes (S : Site) (user : User) (endpoint : Endpoint) (said : Said) (d : Server) : Prop :=
  ∀ {authorization key s s' a}, S.Names user authorization → Steps d.db s.db → Reachable s.db →
    s.db.user user.id = some user → Serving S (endpoint.fetch authorization key) s (.ok a) s' →
      said.Holds user s'.db

variable {d : Server}

/-- A registration enrolls its user. -/
theorem register_makes (data : Option RegisterIn) :
    (Endpoint.register data).Makes S user (.enrolled data) d := by
  rintro authorization key s s' a _ _ _ _ ⟨arrival, _, _, m, harrival, _, _, ha, hs'⟩
  obtain ⟨data, rfl, rfl⟩ := Option.map_eq_some_iff.mp harrival
  have hok : (engine.request (handleRegister data) m.env m.faults s.db).1.map Delivered.user = .ok a :=
    ok_of_mapError ha
  have hstate : s'.db = (engine.request (handleRegister data) m.env m.faults s.db).2 :=
    congrArg Server.db hs'
  obtain ⟨out, ho, _⟩ := answered_calm hok
  have hrun : (Call.register data).run m.env m.faults s.db = (.ok (.user out), s'.db) :=
    Prod.ext (congrArg (Except.map Answer.user) ho) hstate.symm
  rw [(register_succeeded hrun).2]
  exact ⟨data, rfl, m.env.registered data, List.mem_append_right _ (List.mem_singleton_self _),
    rfl, rfl, rfl⟩

/-- A new request is the user's own. -/
theorem createRequest_makes (data : Option ProductRequestIn) :
    (Endpoint.createRequest data).Makes S user (.requested data) d := by
  intro authorization key s s' a hown _ _ huser h
  obtain ⟨_, _, _, _, harrival, _⟩ := id h
  obtain ⟨data, rfl, _⟩ := Option.map_eq_some_iff.mp harrival
  obtain ⟨env, o, hproduces, hholds⟩ := h.post hown huser fun _ _ => rfl
  exact hholds _ hproduces.requested

/-- An offer is the user's own, at his price. -/
theorem makeOffer_makes (requestId : Id) (amount : Amount) (message : String) :
    (Endpoint.makeOffer requestId (Browser.offerIn amount message)).Makes S user
      (.offered requestId amount message) d := by
  intro authorization key s s' a hown _ _ huser h
  unfold Browser.offerIn at h
  split at h
  · obtain ⟨env, o, hproduces, hholds⟩ := h.post hown huser fun _ _ => rfl
    exact hholds _ (hproduces.offered rfl)
  · obtain ⟨_, _, _, _, harrival, _⟩ := h
    exact absurd harrival (by simp [Fetch.arrival, Endpoint.fetch])

/-- So is a counter. -/
theorem counter_makes (id : Id) (amount : Amount) (message : String) :
    (Endpoint.counter id (Browser.counterIn amount message)).Makes S user
      (.countered id amount message) d := by
  intro authorization key s s' a hown _ _ huser h
  unfold Browser.counterIn at h
  split at h
  · obtain ⟨env, o, hproduces, hholds⟩ := h.post hown huser fun _ _ => rfl
    exact hholds _ (hproduces.countered rfl)
  · obtain ⟨_, _, _, _, harrival, _⟩ := h
    exact absurd harrival (by simp [Fetch.arrival, Endpoint.fetch])

/-- A rejection ends the negotiation. -/
theorem reject_makes (id : Id) : (Endpoint.reject id).Makes S user (.rejected id) d := by
  intro authorization key s s' a hown _ _ huser h
  obtain ⟨env, o, hproduces, hholds⟩ := h.post hown huser fun _ _ => rfl
  exact hholds _ hproduces.rejected

/-- The button is of a panel that has been true by now. -/
theorem accept_makes {panel : Panel} (hseen : panel.Seen user d.db) {amount : Amount}
    {currency : String} (hbutton : .accept amount currency ∈ panel.view.actions) :
    (Endpoint.accept panel.neg.id).Makes S user (.closed panel.neg amount currency) d := by
  intro authorization key s s' a hown hsteps _ huser h
  obtain ⟨hview, db₀, hdb₀, ⟨n, hfor, hneg⟩, hlater⟩ := hseen
  rw [hview, hneg] at hbutton
  rw [hneg] at h ⊢
  obtain ⟨env, o, hproduces, hholds⟩ := h.post hown huser fun _ _ => rfl
  exact hholds _ (hproduces.closed hdb₀ (hlater.trans hsteps) hfor hbutton)

end

/-! ## §4. What a page relies on. -/

/-- A page of this user. -/
def relying (S : Site) (t : Texts) (user : User) : Reliance Screen Fetch Delivered Server where
  later s s' := Steps s.db s'.db
  shows page s := Reachable s.db ∧ s.db.user user.id = some user ∧ Truthful S t user page s.db
  told d r a s := ∃ s₀ s₁, Steps d.db s₀.db ∧ Reachable s₀.db ∧ s₀.db.user user.id = some user
    ∧ Serving S r s₀ (.ok a) s₁ ∧ Steps s₁.db s.db

/-- Users are not forgotten. -/
theorem user_stays {db db' : Db} {user : User} (huser : db.user user.id = some user)
    (hrun : Steps db db') : db'.user user.id = some user := by
  obtain ⟨rest, hrest⟩ := users_prefix_of_run hrun
  unfold Db.user at huser ⊢
  rw [← hrest]
  exact lookup_append_of_some rest huser

section
variable {S : Site} {t : Texts} {user : User}

/-- **What a page relies on stays**, whatever the server is asked. -/
theorem relying_lawful : (relying S t user).Lawful where
  refl := fun _ => .refl
  trans := fun h h' => h.trans h'
  shows_later := by
    rintro page s s' ⟨hs, huser, htrue⟩ hlater
    exact ⟨hs.trans hlater, user_stays huser hlater, htrue.later hs hlater⟩
  told_later := by
    rintro d r a s s' ⟨s₀, s₁, hd, hs₀, huser, hserving, hsteps⟩ hlater
    exact ⟨s₀, s₁, hd, hs₀, huser, hserving, hsteps.trans hlater⟩

variable {d s : Server} {R : String → Server → Prop}

/-- What the page is told in answer to this request, which it has sent with a header that
names nobody else. -/
def Told (S : Site) (t : Texts) (user : User) (endpoint : Endpoint) (d : Server) (a : Delivered)
    (s : Server) : Prop :=
  ∃ authorization key, S.Names user authorization
    ∧ (relying S t user).told d (endpoint.fetch authorization key) a s

/-- What is told stays told. -/
theorem Told.later {endpoint : Endpoint} {a : Delivered} {s' : Server}
    (h : Told S t user endpoint d a s) (hrun : Steps s.db s'.db) : Told S t user endpoint d a s' := by
  obtain ⟨authorization, key, hown, htold⟩ := h
  exact ⟨authorization, key, hown, relying_lawful.told_later htold hrun⟩

/-- What the request has made true stays true. -/
theorem told_makes {endpoint : Endpoint} {said : Said} (h : endpoint.Makes S user said d)
    {a : Delivered} (htold : Told S t user endpoint d a s) : said.Holds user s.db := by
  obtain ⟨authorization, key, hown, s₀, s₁, hd, hs₀, huser, hserving, hsteps⟩ := htold
  exact (h hown hd hs₀ huser hserving).stays (hs₀.trans hserving.steps) hsteps

/-! ## §5. The functions of the page. -/

/-- What of a page is true or not. -/
def Screen.shown (page : Screen) : Option String × Option UserOut × Option Panel × Option Lists
    × Option Toast × Bool × Option Confirm :=
  (page.authorization, page.user, page.detail, page.lists, page.toast, page.modal.hidden,
    page.modal.onConfirm)

/-- A page that shows the same is as true. -/
theorem Truthful.same {page page' : Screen} {db : Db} (h : Truthful S t user page db)
    (hsame : page'.shown = page.shown) : Truthful S t user page' db := by
  obtain ⟨htoken, huser, hdetail, hlists, htoast, hhidden, honConfirm⟩ :
      page'.authorization = page.authorization ∧ page'.user = page.user
        ∧ page'.detail = page.detail ∧ page'.lists = page.lists ∧ page'.toast = page.toast
        ∧ page'.modal.hidden = page.modal.hidden ∧ page'.modal.onConfirm = page.modal.onConfirm := by
    simpa only [Screen.shown, Prod.mk.injEq] using hsame
  exact
    { bearer := by rw [htoken]; exact h.bearer
      who := fun out hout => h.who out (huser ▸ hout)
      detail := fun panel hpanel => h.detail panel (hdetail ▸ hpanel)
      lists := fun lists hl => h.lists lists (hlists ▸ hl)
      toast := fun shown hshown => h.toast shown (htoast ▸ hshown)
      modal := by rw [hhidden, honConfirm]; exact h.modal }

/-- What writes nothing that is shown. -/
theorem shows_same {f : Screen → Screen} (hf : ∀ page, (f page).shown = page.shown) :
    ∀ page, (relying S t user).shows page d → (relying S t user).shows (f page) d :=
  fun page h => ⟨h.1, h.2.1, h.2.2.same (hf page)⟩

/-- **`api`** returns what the page is told, or throws. -/
theorem upholds_api {endpoint : Endpoint} {idempotent : Bool} {Q : Delivered → Server → Prop}
    (hQ : ∀ a s, Steps d.db s.db → Told S t user endpoint d a s → Q a s)
    (hR : ∀ e s, Steps d.db s.db → R e s) :
    (Browser.api endpoint idempotent).Upholds (relying S t user) Q R d := by
  refine Async.upholds_bind.mpr fun page hpage => ?_
  refine Async.upholds_bind.mpr ⟨shows_same fun _ => rfl, ?_⟩
  refine Async.upholds_bind.mpr fun s hs => ⟨fun e => hR e s hs, fun as has => ?_⟩
  obtain - | ⟨htold, hnil⟩ := has
  cases hnil
  -- the header is that of the page when it sent the request
  exact hQ _ s hs ⟨page.authorization, _, hpage.2.2.bearer, htold⟩

/-- A toast about what holds. -/
theorem upholds_toast {said : Said} {Q : Unit → Server → Prop} (hsaid : said.Holds user d.db)
    (hQ : Q () d) : (Browser.toast t said).Upholds (relying S t user) Q R d := by
  refine ⟨fun page h => ⟨h.1, h.2.1, h.2.2.bearer, h.2.2.who, h.2.2.detail, h.2.2.lists, ?_,
    h.2.2.modal⟩, hQ⟩
  rintro shown ⟨⟩
  exact ⟨rfl, hsaid⟩

/-- What a read's answer says has been so. -/
theorem told_read {endpoint : Endpoint} {a : Delivered} {op : ReadOp}
    (htold : Told S t user endpoint d a s)
    (hr : ∀ authorization key source detail,
      (endpoint.fetch authorization key).arrival source detail
        = some (.authorized authorization (.read op))) :
    ∃ body, a = .body body ∧ Was (fun db => op.answer db user = .ok body) s.db := by
  obtain ⟨authorization, key, hown, s₀, s₁, _, hs₀, huser, hserving, hsteps⟩ := htold
  obtain ⟨body, ha, hanswer⟩ := hserving.read hown huser (hr authorization key)
  exact ⟨body, ha, s₀.db, hs₀, hanswer, hserving.steps.trans hsteps⟩

/-- Two good answers of the listings. -/
theorem listings_some {body body' : ReadBody} {requests negs : List Body}
    (h : Browser.listings [.body body, .body body'] = some (requests, negs)) :
    body = .items requests ∧ body' = .items negs := by
  cases body <;> cases body' <;> simp_all [Browser.listings]

/-- **`refresh`** shows both lists as they have been answered to the user. -/
theorem upholds_refresh {Q : Unit → Server → Prop} (hQ : ∀ s, Steps d.db s.db → Q () s)
    (hR : ∀ e s, Steps d.db s.db → R e s) :
    Browser.refresh.Upholds (relying S t user) Q R d := by
  intro page hpage
  dsimp only
  cases hwho : page.user with
  | none => exact hR _ d .refl
  | some out =>
      -- who it is was read before the lists are asked for, and cannot change
      obtain rfl := hpage.2.2.who out hwho
      refine Async.upholds_bind.mpr fun s hs => ⟨fun e => hR e s hs, fun as has => ?_⟩
      obtain - | ⟨hrequests, has⟩ := has
      obtain - | ⟨hnegs, has⟩ := has
      cases has
      have hown := hpage.2.2.bearer
      have htold : Told S t user .listRequests d _ s := ⟨_, _, hown, hrequests⟩
      have htold' : Told S t user .listNegotiations d _ s := ⟨_, _, hown, hnegs⟩
      obtain ⟨body, rfl, hwas⟩ := told_read htold fun _ _ _ _ => rfl
      obtain ⟨body', rfl, hwas'⟩ := told_read htold' fun _ _ _ _ => rfl
      rw [Async.upholds_ret]
      cases hbodies : Browser.listings [.body body, .body body'] with
      | none => exact hR _ s hs
      | some bodies =>
          obtain ⟨requests, negs⟩ := bodies
          obtain ⟨rfl, rfl⟩ := listings_some hbodies
          refine ⟨fun page h => ⟨h.1, h.2.1, h.2.2.bearer, h.2.2.who, h.2.2.detail, ?_, h.2.2.toast,
            h.2.2.modal⟩, hQ s hs⟩
          rintro lists ⟨⟩
          exact ⟨requests, negs, rfl, hwas, hwas'⟩

/-- A panel that has been so may be rendered. -/
theorem upholds_render {neg : NegotiationDetailOut} {Q : Unit → Server → Prop}
    (hwas : Was (fun db => ∃ n, db.negotiationFor user n.id = .ok n ∧ neg = db.detail n) d.db)
    (hQ : Q () d) : (Async.modify (Browser.render neg)).Upholds (relying S t user) Q R d := by
  refine ⟨fun page h => ?_, hQ⟩
  unfold Browser.render
  split
  · exact h
  · next out hwho =>
      obtain rfl := h.2.2.who out hwho
      refine ⟨h.1, h.2.1, h.2.2.bearer, h.2.2.who, ?_, h.2.2.lists, h.2.2.toast, h.2.2.modal⟩
      rintro panel ⟨⟩
      exact ⟨rfl, hwas⟩

/-- What the answer for a panel says has been so. -/
theorem told_detail {id : Id} {a : Delivered} {neg : NegotiationDetailOut}
    (htold : Told S t user (.negotiation id) d a s)
    (ha : Browser.asDetail a = some neg) :
    Was (fun db => ∃ n, db.negotiationFor user n.id = .ok n ∧ neg = db.detail n) s.db := by
  obtain ⟨body, rfl, db₀, hdb₀, hanswer, hsteps⟩ := told_read htold fun _ _ _ _ => rfl
  refine ⟨db₀, hdb₀, ?_, hsteps⟩
  change (db₀.negotiationFor user id).map _ = _ at hanswer
  cases hfor : db₀.negotiationFor user id with
  | error e =>
      rw [hfor] at hanswer
      exact absurd hanswer (by simp [Except.map])
  | ok n =>
      rw [hfor] at hanswer
      obtain rfl := Except.ok.inj hanswer
      obtain rfl : n.id = id := lookup_key (Db.negotiationFor_iff.mp hfor).1
      exact ⟨n, hfor, (Option.some.inj ha).symm⟩

/-- **`openNegotiation`** renders the detail that it has been told, or reports a problem. -/
theorem upholds_openNegotiation {id : Id} {Q : Unit → Server → Prop}
    (hQ : ∀ s, Steps d.db s.db → Q () s) (hR : ∀ e s, Steps d.db s.db → R e s) :
    (Browser.openNegotiation t id).Upholds (relying S t user) Q R d := by
  refine Async.upholds_bind.mpr ⟨shows_same fun _ => rfl, ?_⟩
  refine Async.upholds_bind.mpr (Async.upholds_tryCatch.mpr (Async.upholds_bind.mpr ?_))
  refine upholds_api (fun a s hs htold => ?_) fun e s hs => ?_
  · rw [Async.upholds_ret]
    dsimp only
    cases hneg : Browser.asDetail a with
    | none => exact hR _ s hs
    | some neg => exact upholds_render (told_detail htold hneg) (hQ s hs)
  · have hsaid : (Said.problem e).Holds user s.db := trivial
    exact Async.upholds_bind.mpr (upholds_toast hsaid (hQ s hs))

/-- **`postDecision`** knows what it was told still behind the refresh and the new panel. -/
theorem upholds_postDecision {id : Id} {act : Endpoint} {Q : Unit → Server → Prop}
    (hQ : ∀ a s, Steps d.db s.db → Told S t user act d a s → Q () s)
    (hR : ∀ e s, Steps d.db s.db → R e s) :
    (Browser.postDecision t id act).Upholds (relying S t user) Q R d := by
  refine Async.upholds_bind.mpr (upholds_api (fun a s hs htold => ?_) hR)
  refine Async.upholds_bind.mpr (upholds_refresh (fun s₁ hs₁ => ?_)
    fun e s₁ hs₁ => hR e s₁ (hs.trans hs₁))
  refine upholds_openNegotiation (fun s₂ hs₂ => ?_)
    fun e s₂ hs₂ => hR e s₂ ((hs.trans hs₁).trans hs₂)
  -- three awaits behind the request, what it has told still holds
  exact hQ a s₂ ((hs.trans hs₁).trans hs₂) ((htold.later hs₁).later hs₂)

/-- A decision, and the report of it. -/
theorem upholds_decision {id : Id} {act : Endpoint} {said : Said}
    (hmakes : act.Makes S user said d) :
    (Browser.postDecision t id act >>= fun _ => Browser.toast t said).Upholds
      (relying S t user) (fun _ _ => True) (fun _ _ => True) d :=
  Async.upholds_bind.mpr (upholds_postDecision
    (fun _ _ _ htold => upholds_toast (told_makes hmakes htold) trivial) fun _ _ _ => trivial)

/-- A function behind a button, which reports what it throws. -/
theorem upholds_withLoading {b : Element} {p : Js Unit} {report : String → Js Unit}
    (hp : p.Upholds (relying S t user) (fun _ _ => True) (fun _ _ => True) d)
    (hreport : ∀ e s, (report e).Upholds (relying S t user) (fun _ _ => True)
      (fun _ _ => True) s) :
    (Browser.withLoading b (p.tryCatch report)).Upholds (relying S t user) (fun _ _ => True)
      (fun _ _ => True) d := by
  intro page _
  dsimp only
  split
  · trivial
  · refine ⟨shows_same fun _ => rfl, Async.upholds_lastly.mpr (Async.upholds_tryCatch.mpr ?_)⟩
    have hfree : ∀ (Q : Unit → Server → Prop) s, Q () s →
        (Async.modify (Screen.disable b false) : Js Unit).Upholds (relying S t user) Q
          (fun _ _ => True) s := fun Q s hQ => ⟨shows_same fun _ => rfl, hQ⟩
    refine hp.imp relying_lawful (fun _ s _ _ => hfree _ s trivial) fun e s _ _ => ?_
    exact (hreport e s).imp relying_lawful (fun _ s' _ _ => hfree _ s' trivial)
      fun _ s' _ _ => hfree _ s' trivial

/-- `boot` finds out who the user is, and has the lists. -/
theorem upholds_boot : Browser.boot.Upholds (relying S t user) (fun _ _ => True)
    (fun _ _ => True) d := by
  refine Async.upholds_bind.mpr (upholds_api (fun a s _ htold => ?_) fun _ _ _ => trivial)
  obtain ⟨_, _, hown, s₀, s₁, _, _, huser, hserving, _⟩ := htold
  obtain rfl := hserving.me hown huser
  refine Async.upholds_bind.mpr ⟨fun page h => ⟨h.1, h.2.1, h.2.2.bearer, ?_, h.2.2.detail,
    h.2.2.lists, h.2.2.toast, h.2.2.modal⟩, ?_⟩
  · rintro out ⟨⟩
    rfl
  · exact upholds_refresh (fun _ _ => trivial) fun _ _ _ => trivial

/-- **The login** changes the token for another one of the same user. -/
theorem upholds_login (hS : S.Lawful) (hbearer : S.bearer none = none) {payload : Option LoginIn}
    (hown : ∀ credentials, payload = some credentials → credentials.email = user.email) :
    (Browser.login t payload).Upholds (relying S t user) (fun _ _ => True) (fun _ _ => True) d := by
  refine upholds_withLoading (Async.upholds_bind.mpr ?_) fun _ _ => upholds_toast trivial trivial
  refine upholds_api (fun a s _ htold => ?_) fun _ _ _ => trivial
  obtain ⟨_, _, _, s₀, s₁, _, hs₀, huser, hserving, _⟩ := htold
  cases ha : Browser.asToken a with
  | none => trivial
  | some out =>
      obtain rfl : a = .token out := by
        cases a <;> simp_all [Browser.asToken]
      obtain ⟨issued, htoken⟩ := hserving.login hs₀ huser hown
      refine Async.upholds_bind.mpr ⟨fun page h => ⟨h.1, h.2.1, ?_, h.2.2.who, h.2.2.detail,
        h.2.2.lists, h.2.2.toast, h.2.2.modal⟩, upholds_boot⟩
      refine Site.names_of_token hS hbearer fun text htext => ?_
      exact ⟨issued, out, htoken, Option.some.inj htext⟩

/-- What the modal confirms. -/
theorem upholds_onConfirm (amount : Amount) (message : String) (c : Confirm) :
    (Browser.onConfirm t amount message c).Upholds (relying S t user) (fun _ _ => True)
      (fun _ _ => True) d := by
  cases c with
  | counter id => exact upholds_decision (counter_makes id amount _)
  | offer requestId =>
      refine Async.upholds_bind.mpr (upholds_api (fun a s _ htold => ?_) fun _ _ _ => trivial)
      refine Async.upholds_bind.mpr (upholds_toast
        (told_makes (makeOffer_makes requestId amount _) htold) ?_)
      refine Async.upholds_bind.mpr (upholds_refresh (fun s₁ _ => ?_) fun _ _ _ => trivial)
      cases Browser.negotiationId a with
      | none => trivial
      | some id => exact upholds_openNegotiation (fun _ _ => trivial) fun _ _ _ => trivial

/-- A button of a panel is in the panel. -/
theorem Screen.button_some {page : Screen} {rendering : Nat} {which : Button → Bool} {panel : Panel}
    {b : Button} (h : page.button rendering which = some (panel, b)) :
    page.detail = some panel ∧ b ∈ panel.view.actions ∧ which b = true := by
  obtain ⟨shown, hshown, hfound⟩ := Option.bind_eq_some_iff.mp h
  split at hfound
  · obtain ⟨b', hb', heq⟩ := Option.map_eq_some_iff.mp hfound
    obtain ⟨rfl, rfl⟩ := Prod.mk.inj heq
    exact ⟨hshown, List.mem_of_find?_eq_some hb', List.find?_some hb'⟩
  · exact absurd hfound (by simp)

/-- Only the accept button stands for an amount. -/
theorem Button.price_some {b : Button} {amount : Amount} {currency : String}
    (h : b.price = some (amount, currency)) : b = .accept amount currency := by
  cases b with
  | accept amount' currency' =>
      obtain ⟨rfl, rfl⟩ := Prod.mk.inj (Option.some.inj h)
      rfl
  | counter => exact absurd h (by simp [Button.price])
  | reject => exact absurd h (by simp [Button.price])

/-! The modal is hidden exactly while there is nothing to confirm. -/

/-- Opening the modal keeps the page true. -/
theorem upholds_openModal {title label : String} {c : Confirm} :
    (Browser.openModal title label c).Upholds (relying S t user) (fun _ _ => True)
      (fun _ _ => True) d :=
  ⟨fun _ h => ⟨h.1, h.2.1, h.2.2.bearer, h.2.2.who, h.2.2.detail, h.2.2.lists, h.2.2.toast,
    by simp⟩, trivial⟩

/-- Closing the modal keeps the page true. -/
theorem upholds_closeModal : Browser.closeModal.Upholds (relying S t user) (fun _ _ => True)
    (fun _ _ => True) d :=
  ⟨fun _ h => ⟨h.1, h.2.1, h.2.2.bearer, h.2.2.who, h.2.2.detail, h.2.2.lists, h.2.2.toast,
    by simp⟩, trivial⟩

/-- A report in the modal keeps the page true. -/
theorem upholds_modalError {msg : String} :
    (Browser.modalError msg).Upholds (relying S t user) (fun _ _ => True)
      (fun _ _ => True) d :=
  ⟨shows_same fun _ => rfl, trivial⟩

/-- **What each gesture calls upholds it**, if a login is the user's own. -/
theorem Gesture.upholds (hS : S.Lawful) (hbearer : S.bearer none = none) (g : Gesture)
    (hown : ∀ credentials, g = .login (some credentials) → credentials.email = user.email)
    (d : Server) :
    (g.handler t).Upholds (relying S t user) (fun _ _ => True) (fun _ _ => True) d := by
  have hproblem : ∀ e s, (Browser.toast t (.problem e)).Upholds (relying S t user)
      (fun _ _ => True) (fun _ _ => True) s := fun e s => upholds_toast trivial trivial
  cases g with
  | boot => exact upholds_boot
  | login payload =>
      refine upholds_login hS hbearer fun credentials hpayload => hown credentials ?_
      rw [hpayload]
  | register data =>
      refine upholds_withLoading (Async.upholds_bind.mpr ?_) hproblem
      exact upholds_api (fun _ _ _ htold =>
        upholds_toast (told_makes (register_makes data) htold) trivial) fun _ _ _ => trivial
  | createRequest data =>
      refine upholds_withLoading (Async.upholds_bind.mpr ?_) hproblem
      refine upholds_api (fun _ _ _ htold => ?_) fun _ _ _ => trivial
      refine Async.upholds_bind.mpr (upholds_toast
        (told_makes (createRequest_makes data) htold) ?_)
      exact upholds_refresh (fun _ _ => trivial) fun _ _ _ => trivial
  | openNegotiation id =>
      intro page _
      dsimp only
      split
      · exact upholds_openNegotiation (fun _ _ => trivial) fun _ _ _ => trivial
      · trivial
  | makeOffer requestId =>
      intro page _
      dsimp only
      split
      · exact upholds_openModal
      · trivial
  | accept rendering =>
      intro page hpage
      dsimp only
      split
      · next panel amount currency hfound =>
          -- the panel is true when the button is pressed, and the request comes later
          obtain ⟨⟨shown, b⟩, hbutton, hprice⟩ := Option.bind_eq_some_iff.mp hfound
          obtain ⟨price, hb, heq⟩ := Option.map_eq_some_iff.mp hprice
          obtain ⟨rfl, rfl⟩ := Prod.mk.inj heq
          obtain ⟨hdetail, hmem, _⟩ := Screen.button_some hbutton
          obtain rfl : b = .accept amount currency := Button.price_some hb
          exact upholds_withLoading (upholds_decision
            (accept_makes (hpage.2.2.detail shown hdetail) hmem)) hproblem
      · trivial
  | counter rendering =>
      intro page _
      dsimp only
      split
      · exact upholds_openModal
      · trivial
  | reject rendering =>
      intro page _
      dsimp only
      split
      · exact upholds_withLoading (upholds_decision (reject_makes _)) hproblem
      · trivial
  | cancel => exact upholds_closeModal
  | submit amount message =>
      show (Browser.submit t amount message).Upholds _ _ _ d
      unfold Browser.submit
      split
      · exact upholds_modalError
      · next amount _ =>
          refine upholds_withLoading (Async.upholds_bind.mpr fun page _ => ?_)
            fun _ _ => upholds_modalError
          dsimp only
          split
          · trivial
          · exact (upholds_onConfirm amount message _).imp relying_lawful
              (fun _ _ _ _ => upholds_closeModal) fun _ _ _ _ => trivial

end

/-! ## §6. All pages. -/

/-- **What the pages show is true.**  Each page has one user: the token that is stored for
it, if any, is his, and whoever logs in on it does so with his email.  Whatever is pressed
on the pages, and whatever is answered, delayed or lost, and whoever else sends requests:
the user of each page is its user, its panel and its lists are what he could read some
time, and what its toast reports has happened and is so now. -/
theorem page_truthful {S : Site} (hS : S.Lawful) (hbearer : S.bearer none = none) (t : Texts)
    {s : Server} (hs : Reachable s.db) {token : Nat → Option String} {uuids : Nat → Nat → String}
    {users : Nat → User} (huser : ∀ i, s.db.user (users i).id = some (users i))
    (htoken : ∀ i text, token i = some text →
      ∃ issued out, S.tokenFor issued (users i) = .ok out ∧ out.accessToken = text)
    {presses : Nat → Gesture → Prop}
    (hlogins : ∀ i payload, presses i (.login (some payload)) → payload.email = (users i).email)
    {w : Browsing} (hrun : BrowsingRun S t presses (s.opened token uuids) w) (i : Nat) :
    Truthful S t (users i) (w.tabs i).page w.server.db := by
  -- each page alone relies on what stays, so they can be used side by side
  have hfair : Net.Fair presses (Serving S) (Serves S) (Gesture.handler t)
      fun i => relying S t (users i) :=
    { lawful := fun _ => relying_lawful
      serves_later := fun _ _ _ _ _ h => Serving.steps h
      others_later := fun _ _ _ h => Serves.steps h
      told := fun _ _ _ _ d _ d' hlater hshows h =>
        ⟨d, d', hlater, hshows.1, hshows.2.1, h, .refl⟩
      upholds := fun i g d hg => Gesture.upholds hS hbearer g
        (fun credentials hlogin => hlogins i credentials (hlogin ▸ hg)) d }
  have hstart : (s.opened token uuids).Sound fun i => relying S t (users i) := by
    refine fun i => ⟨⟨hs, huser i, Site.names_of_token hS hbearer (htoken i), ?_, ?_, ?_, ?_,
      fun _ => rfl, fun _ => rfl⟩, ?_⟩
    · rintro out ⟨⟩
    · rintro panel ⟨⟩
    · rintro lists ⟨⟩
    · rintro shown ⟨⟩
    · rintro k task ⟨⟩
  exact (Net.Run.upholds hfair hstart hrun i).page.2.2

/-! ### Somebody logs in on his page. -/

/-- A request of the page at a calm moment, which leaves the state alone. -/
theorem serving_calm {user : User} {token : TokenOut} {endpoint : Endpoint} {route : Route}
    {a : Delivered} {s : Server} (ht : clearSite.tokenFor 1000 user = .ok token)
    (hr : ∀ authorization source detail, (endpoint.fetch authorization none).arrival source detail
      = some (.authorized authorization route))
    (hrun : route.run user.id (momentAt s.db 1000) s.db = (.ok a, s.db)) :
    Serving clearSite (endpoint.fetch token.header none) s (.ok a) s := by
  have hin : clearSite.InWindow 1000 1000 := by decide +kernel
  have hsubject := subject_tokenFor clearSite_lawful ht (clearSite_lawful.bearer token.accessToken) 1000
  rw [if_pos hin] at hsubject
  have hanswer := serve_authorized_ok (s := s) (m := momentAt s.db 1000) hsubject route
  unfold Server.asCaller at hanswer
  rw [hrun] at hanswer
  refine ⟨_, ⟨none, none⟩, "", momentAt s.db 1000, hr _ _ _, momentAt_fresh s.db 1000, ?_, ?_, ?_⟩
  · rintro k ⟨⟩
  · show _ = (s.serve clearSite (momentAt s.db 1000)
      (.authorized (some ("Bearer " ++ token.accessToken)) route)).1.mapError _
    rw [hanswer]
    rfl
  · show _ = (s.serve clearSite (momentAt s.db 1000)
      (.authorized (some ("Bearer " ++ token.accessToken)) route)).2
    rw [hanswer]

/-- A read with this token is answered. -/
theorem serving_read {user : User} {token : TokenOut} {endpoint : Endpoint} {op : ReadOp}
    {body : ReadBody} {s : Server} (ht : clearSite.tokenFor 1000 user = .ok token)
    (hr : ∀ authorization source detail, (endpoint.fetch authorization none).arrival source detail
      = some (.authorized authorization (.read op)))
    (huser : s.db.user user.id = some user) (hanswer : op.answer s.db user = .ok body) :
    Serving clearSite (endpoint.fetch token.header none) s (.ok (.body body)) s := by
  refine serving_calm ht hr ?_
  have hanswers := handleRead_answers ⟨user.id, op⟩ (momentAt s.db 1000).env s.db
  have hread : (ReadRequest.mk user.id op).answer s.db = .ok body := by
    unfold ReadRequest.answer
    rw [huser]
    exact hanswer
  rw [hread] at hanswers
  show (Except.map Delivered.body (engine.request _ _ calm _).1, (engine.request _ _ calm _).2) = _
  rw [hanswers]
  rfl

/-- So is the question who the caller is. -/
theorem serving_me {user : User} {token : TokenOut} {s : Server}
    (ht : clearSite.tokenFor 1000 user = .ok token) (huser : s.db.user user.id = some user) :
    Serving clearSite (Endpoint.me.fetch token.header none) s (.ok (.user user.out)) s := by
  refine serving_calm ht (fun _ _ _ => rfl) ?_
  have hanswers := handleMe_answers user.id (momentAt s.db 1000).env s.db
  rw [huser] at hanswers
  show (Except.map Delivered.user (engine.request _ _ calm _).1, (engine.request _ _ calm _).2) = _
  rw [hanswers]
  rfl

/-- A page without a token: the login form is sent, then the page asks who its user is, and
then for both lists at once. -/
theorem login_run (S : Site) (t : Texts) {presses : Nat → Gesture → Prop} {s s' : Server}
    {uuids : Nat → Nat → String} {payload : LoginIn} {token : TokenOut} {out : UserOut}
    {requests negs : List Body} (hpress : presses 0 (.login (some payload)))
    (htext : token.accessToken ≠ "")
    (hlogin : Serving S ((Endpoint.login (some payload)).fetch none none) s (.ok (.token token)) s')
    (hme : Serving S (Endpoint.me.fetch token.header none) s' (.ok (.user out)) s')
    (hrequests : Serving S (Endpoint.listRequests.fetch token.header none) s'
      (.ok (.body (.items requests))) s')
    (hnegs : Serving S (Endpoint.listNegotiations.fetch token.header none) s'
      (.ok (.body (.items negs))) s') :
    ∃ w : Browsing, BrowsingRun S t presses (s.opened (fun _ => none) uuids) w
      ∧ (w.tabs 0).page.lists = some (listsOf out requests negs) := by
  -- the header behind the login
  have hheader : token.header = ((some token.accessToken).filter fun text => text ≠ "").map
      fun text => "Bearer " ++ text := by
    simp [TokenOut.header, htext]
  rw [hheader] at hme hrequests hnegs
  have hlogged : BrowsingRun S t presses (s.opened (fun _ => none) uuids) _ :=
    (((Relation.ReflTransGen.single (.press 0 (.login (some payload)) hpress)).tail
      (.serve 0 0 0 rfl hlogin)).tail (.keep 0 0 0 rfl)).tail (.resume 0 0 rfl
        (show List.map Promise.value _ = [Delivered.token token].map some from rfl))
  have hasked := ((hlogged.tail (.serve 0 0 0 rfl hme)).tail (.keep 0 0 0 rfl)).tail
    (.resume 0 0 rfl (show List.map Promise.value _ = [Delivered.user out].map some from rfl))
  have hserved := (hasked.tail (.serve 0 0 1 rfl hnegs)).tail (.serve 0 0 0 rfl hrequests)
  have hdone := ((hserved.tail (.keep 0 0 0 rfl)).tail (.keep 0 0 1 rfl)).tail (.resume 0 0 rfl
    (show List.map Promise.value _
      = [Delivered.body (.items requests), .body (.items negs)].map some from rfl))
  exact ⟨_, hdone, rfl⟩

/-- A token of this library is no empty text. -/
theorem clearSite_token_ne {issued : ℚ} {user : User} {token : TokenOut}
    (ht : clearSite.tokenFor issued user = .ok token) : token.accessToken ≠ "" := by
  obtain ⟨subject, exp, _, _, rfl⟩ := Site.tokenFor_iff.mp ht
  intro hempty
  have hchars := congrArg String.toList hempty
  simp [clearSite, clearJwt, Json.render] at hchars

/-- "client@example.com" logs in on a page without a token. -/
theorem page_truthful_login : ∃ user, ∃ w : Browsing, user.email = "client@example.com"
    ∧ (w.tabs 0).page.lists.isSome = true
    ∧ Truthful clearSite plainTexts user (w.tabs 0).page w.server.db := by
  obtain ⟨token, s₁, hlogin⟩ := accountLogin_ok
  obtain ⟨user, hfound, ht, hdb⟩ := login_answered hlogin
  have hrow : Server.withAccount.db.user user.id = some user :=
    loggedIn_stays withAccount_reachable hfound .refl
  have hemail : user.email = "client@example.com" := lookup_key (Db.loggedIn_iff.mp hfound).1
  have hserving : Serving clearSite
      ((Endpoint.login (some ⟨"client@example.com", "password"⟩)).fetch none none)
      Server.withAccount (.ok (.token token)) s₁ := by
    refine ⟨_, ⟨none, none⟩, "", momentAt Server.withAccount.db 1000, rfl, momentAt_fresh _ _, ?_,
      ?_, ?_⟩
    · rintro k ⟨⟩
    · exact (congrArg (fun r => r.1.mapError Error.shown) hlogin).symm
    · exact (congrArg Prod.snd hlogin).symm
  have hrow₁ : s₁.db.user user.id = some user := by rw [hdb, hrow]
  have hrequests : (ReadOp.listRequests defaultPage).answer s₁.db user = .ok (.items _) := rfl
  have hnegs : (ReadOp.listNegotiations defaultPage).answer s₁.db user = .ok (.items _) := rfl
  obtain ⟨w, hrun, hlists⟩ := @login_run clearSite plainTexts
    (fun _ g => g = .login (some ⟨"client@example.com", "password"⟩)) Server.withAccount s₁
    (fun _ n => toString n) _ token user.out _ _ rfl (clearSite_token_ne ht) hserving
    (serving_me ht hrow₁) (serving_read ht (fun _ _ _ => rfl) hrow₁ hrequests)
    (serving_read ht (fun _ _ _ => rfl) hrow₁ hnegs)
  refine ⟨user, w, hemail, by rw [hlists]; rfl, ?_⟩
  refine @page_truthful clearSite clearSite_lawful rfl plainTexts Server.withAccount
    withAccount_reachable (fun _ => none) (fun _ n => toString n) (fun _ => user) (fun _ => hrow)
    (fun _ _ h => absurd h (by simp)) _ ?_ w hrun 0
  intro i payload hpayload
  obtain rfl := Option.some.inj (Gesture.login.inj hpayload)
  exact hemail.symm

end Procurement
