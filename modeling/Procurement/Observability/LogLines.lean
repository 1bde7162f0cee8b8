/-
  Procurement.Observability.LogLines
  ──────────────────────────────────
  **THE LOG AS A TEXT** (`JsonFormatter`, `configure_logging`).

  The formatter dumps each record with `json.dumps`, and the stream handler
  writes the text and a newline.  Method, path, request id and traceback come
  from outside and may hold any characters.

      records ── dumps, "\n" ──> log file ── split, loads ──> the same records

  Nothing that a client sends can add a line, cut one in two or change another
  record; and a line that carries the id of a request was emitted by that
  request.
-/
import Procurement.Framework.JsonTexts
import Procurement.Observability.Correlation

namespace Procurement

open Procurement.Framework
open Procurement.Framework.Coroutine

/-! ## §1. Writing. -/

/-- `json.dumps`: characters outside ASCII are escaped. -/
def dumps (v : Json) : String := String.ofList (v.render ⟨true, true⟩)

/-- How a value of a record is written.  A number is an `int` or a `float` in the
code; the record says its value only, so it may be written as either. -/
def Value.Shows : Value → Json → Prop
  | .str s, .str t => s = t
  | .num q, .int i => q = i
  | .num q, .float d => q = d.value
  | .null, .null => True
  | _, _ => False

/-- `text` is what the formatter returns for the record. -/
def Written (payload : Dict) (text : String) : Prop :=
  ∃ members : List (String × Json),
    List.Forall₂ (fun e m => m.1 = e.1 ∧ e.2.Shows m.2) payload members
      ∧ text = dumps (.obj members)

/-- `StreamHandler.emit`: each text, and the terminator. -/
def logFile (texts : List String) : String := String.join (texts.map fun t => t ++ "\n")

/-- The records among the outputs, in the order in which the handler gets them. -/
def records (xs : List Output) : List Dict :=
  xs.filterMap fun x => match x with
    | .line payload => some payload
    | .row _ => none

/-! ## §2. Reading. -/

def Value.ofJson : Json → Option Value
  | .str s => some (.str s)
  | .int i => some (.num i)
  | .float d => some (.num d.value)
  | .null => some .null
  | _ => none

def readMembers : List (String × Json) → Option Dict
  | [] => some []
  | (k, v) :: ms => do
      let v ← Value.ofJson v
      let rest ← readMembers ms
      some ((k, v) :: rest)

/-- A line of the log, as its consumers read it. -/
def readLine (line : List Char) : Option Dict :=
  match Json.parse line with
  | some (.obj ms) => readMembers ms
  | _ => none

/-- The lines of a file; what follows the last newline is no line. -/
def readLog (file : String) : Option (List Dict) :=
  (file.toList.splitOn '\n').dropLast.mapM readLine

/-! ## §3. Round trip. -/

theorem Value.Shows.ofJson {v : Value} {j : Json} (h : v.Shows j) : Value.ofJson j = some v := by
  cases v <;> cases j <;> first
    | exact h.elim
    | (obtain rfl := h; rfl)
    | rfl

theorem readMembers_shown {payload : Dict} {members : List (String × Json)}
    (h : List.Forall₂ (fun e m => m.1 = e.1 ∧ e.2.Shows m.2) payload members) :
    readMembers members = some payload := by
  induction h with
  | nil => rfl
  | @cons e m payload members he _ ih =>
      obtain ⟨k, v⟩ := m
      obtain ⟨rfl, hv⟩ := he
      show (Value.ofJson v).bind _ = _
      rw [hv.ofJson]
      show (readMembers members).bind _ = _
      rw [ih]
      rfl

theorem Value.shows_of_ofJson {v : Value} {j : Json} (h : Value.ofJson j = some v) : v.Shows j := by
  cases j with
  | str s =>
      obtain rfl := Option.some.inj h
      rfl
  | int i =>
      obtain rfl := Option.some.inj h
      rfl
  | float d =>
      obtain rfl := Option.some.inj h
      rfl
  | null =>
      obtain rfl := Option.some.inj h
      trivial
  | _ => exact absurd h (by simp [Value.ofJson])

theorem shown_of_readMembers {payload : Dict} {members : List (String × Json)}
    (h : readMembers members = some payload) :
    List.Forall₂ (fun e m => m.1 = e.1 ∧ e.2.Shows m.2) payload members := by
  induction members generalizing payload with
  | nil =>
      obtain rfl := Option.some.inj h
      exact .nil
  | cons m members ih =>
      obtain ⟨k, j⟩ := m
      obtain ⟨v, hv, hbehind⟩ := Option.bind_eq_some_iff.mp h
      obtain ⟨rest, hrest, hpayload⟩ := Option.bind_eq_some_iff.mp hbehind
      obtain rfl := Option.some.inj hpayload
      exact .cons ⟨rfl, Value.shows_of_ofJson hv⟩ (ih hrest)

/-- Lines whose members are read as the records have been written for them. -/
theorem written_of_readMembers {payloads : List Dict} {lines : List (List (String × Json))}
    (h : lines.mapM readMembers = some payloads) :
    List.Forall₂ Written payloads (lines.map fun members => dumps (.obj members)) := by
  induction lines generalizing payloads with
  | nil =>
      obtain rfl := Option.some.inj h
      exact .nil
  | cons members lines ih =>
      rw [List.mapM_cons] at h
      obtain ⟨payload, hmembers, hbehind⟩ := Option.bind_eq_some_iff.mp h
      obtain ⟨rest, hrest, hpayloads⟩ := Option.bind_eq_some_iff.mp hbehind
      obtain rfl := Option.some.inj hpayloads
      exact .cons ⟨members, shown_of_readMembers hmembers, rfl⟩ (ih hrest)

section
variable {payload : Dict} {text : String}

/-- A line is read back. -/
theorem Written.readLine (h : Written payload text) : readLine text.toList = some payload := by
  obtain ⟨members, hm, rfl⟩ := h
  unfold Procurement.readLine dumps
  rw [String.toList_ofList, Json.parse_render]
  exact readMembers_shown hm

theorem Written.printable (h : Written payload text) :
    ∀ c ∈ text.toList, 32 ≤ c.toNat ∧ c.toNat ≤ 126 := by
  obtain ⟨members, _, rfl⟩ := h
  intro c hc
  unfold dumps at hc
  rw [String.toList_ofList] at hc
  obtain ⟨hlow, hhigh⟩ := Json.printable_render ⟨true, true⟩ (.obj members) c hc
  exact ⟨hlow, hhigh rfl⟩

theorem Written.one_line (h : Written payload text) : '\n' ∉ text.toList := by
  intro hmem
  exact absurd (h.printable _ hmem).1 (by decide)

end

theorem logFile_cons (t : String) (texts : List String) :
    (logFile (t :: texts)).toList = t.toList ++ '\n' :: (logFile texts).toList := by
  unfold logFile
  simp only [String.toList_join, List.map_cons, List.flatMap_cons, String.toList_append]
  rw [List.append_assoc]
  rfl

/-- The lines of a log file are the texts. -/
theorem splitOn_logFile {texts : List String} (h : ∀ t ∈ texts, '\n' ∉ t.toList) :
    (logFile texts).toList.splitOn '\n' = texts.map String.toList ++ [[]] := by
  induction texts with
  | nil => rfl
  | cons t texts ih =>
      rw [logFile_cons, List.splitOn_append_cons_self_of_not_mem (h t (List.mem_cons_self ..)),
        ih fun u hu => h u (List.mem_cons_of_mem _ hu)]
      rfl

theorem mapM_readLine {payloads : List Dict} {texts : List String}
    (h : List.Forall₂ Written payloads texts) :
    (texts.map String.toList).mapM readLine = some payloads := by
  induction h with
  | nil => rfl
  | cons he _ ih =>
      rw [List.map_cons, List.mapM_cons, he.readLine, ih]
      rfl

/-- What stands in a log was written for some record. -/
theorem exists_written {payloads : List Dict} {texts : List String}
    (h : List.Forall₂ Written payloads texts) {t : String} (ht : t ∈ texts) :
    ∃ payload, Written payload t := by
  induction h with
  | nil => exact absurd ht List.not_mem_nil
  | cons he _ ih =>
      rcases List.mem_cons.mp ht with rfl | ht
      · exact ⟨_, he⟩
      · exact ih ht

/-- **The file holds the records.** -/
theorem readLog_logFile {payloads : List Dict} {texts : List String}
    (h : List.Forall₂ Written payloads texts) : readLog (logFile texts) = some payloads := by
  have hlines : ∀ t ∈ texts, '\n' ∉ t.toList := by
    intro t ht
    obtain ⟨payload, hw⟩ := exists_written h ht
    exact hw.one_line
  unfold readLog
  rw [splitOn_logFile hlines, List.dropLast_concat]
  exact mapM_readLine h

/-! ## §4. The lines of one request. -/

/-- The record carries the id. -/
def Carries (id : String) (payload : Dict) : Prop := Dict.get payload "request_id" = some (.str id)

instance (id : String) (payload : Dict) : Decidable (Carries id payload) :=
  inferInstanceAs (Decidable (_ = _))

/-- The records that carry the id. -/
def carrying (id : String) (payloads : List Dict) : List Dict := payloads.filter (Carries id)

theorem records_append (xs ys : List Output) : records (xs ++ ys) = records xs ++ records ys :=
  List.filterMap_append

theorem carrying_append (id : String) (ps qs : List Dict) :
    carrying id (ps ++ qs) = carrying id ps ++ carrying id qs := List.filter_append ..

/-- Outputs with the id keep all their records. -/
theorem carrying_tagged {id : String} {xs : List Output} (h : Tagged id xs) :
    carrying id (records xs) = records xs := by
  refine List.filter_eq_self.mpr fun payload hp => decide_eq_true ?_
  obtain ⟨x, hx, hsome⟩ := List.mem_filterMap.mp hp
  cases x with
  | line d =>
      obtain rfl := Option.some.inj hsome
      exact h _ hx
  | row e => exact absurd hsome (by simp)

/-- Outputs with another id keep none. -/
theorem carrying_other {id other : String} {xs : List Output} (h : Tagged other xs)
    (hne : other ≠ id) : carrying id (records xs) = [] := by
  refine List.filter_eq_nil_iff.mpr fun payload hp hc => hne ?_
  obtain ⟨x, hx, hsome⟩ := List.mem_filterMap.mp hp
  cases x with
  | line d =>
      obtain rfl := Option.some.inj hsome
      have hboth : some (Value.str other) = some (.str id) := (h _ hx).symm.trans (of_decide_eq_true hc)
      simpa using hboth
  | row e => exact absurd hsome (by simp)

namespace Exchange

/-- What is tagged with the id of the request: what handling it emits, and the
access line of a failure.  The access line of an answer is not. -/
def own (root : Level) (e : Exchange) : List Output :=
  (callNext root e.handling).outputs e.id
    ++ match e.handling.ending with
      | .error exc => (log root (requestFailed e.request e.around exc)).outputs e.id
      | .ok _ => []

/-- Handling a request emits what is its own, and maybe one more line, which
carries the default of the variable. -/
theorem outputs_split (root : Level) (e : Exchange) :
    ∃ access, (e.code root).outputs "-" = e.own root ++ access
      ∧ Tagged e.id (e.own root) ∧ Tagged "-" access := by
  obtain ⟨htagged, _, _⟩ := callNext_spec root e.handling e.id
  unfold own code
  cases hend : e.handling.ending with
  | error exc =>
      refine ⟨[], ?_, htagged.append (tagged_log (requestFailed_plain e.request e.around exc)), ?_⟩
      · rw [outputs_failed hend, List.append_nil]
        rfl
      · exact fun x hx => absurd hx List.not_mem_nil
  | ok response =>
      refine ⟨(log root (requestCompleted e.request e.around (withHeaders e.id response))).outputs "-",
        ?_, ?_, tagged_log (requestCompleted_plain _ _ _)⟩
      · rw [outputs_answered hend, List.append_nil]
        rfl
      · rw [List.append_nil]
        exact htagged

end Exchange

section
variable {ι : Type} [DecidableEq ι]

/-- Records that carry an id which only one task uses are the records of that
task. -/
theorem carrying_trace {id : String} {i : ι} (trace : List (ι × Output))
    (h : ∀ e ∈ trace, e.1 ≠ i → e.2.requestId ≠ some (.str id)) :
    carrying id (records (trace.map Prod.snd))
      = carrying id (records (trace.filterMap fun e => if e.1 = i then some e.2 else none)) := by
  induction trace with
  | nil => rfl
  | cons e trace ih =>
      obtain ⟨j, x⟩ := e
      have hrest := ih fun e he => h e (List.mem_cons_of_mem _ he)
      rw [List.map_cons, ← List.singleton_append, records_append, carrying_append, hrest,
        List.filterMap_cons]
      by_cases hj : j = i
      · simp only [hj, if_true]
        rw [← carrying_append, ← records_append, List.singleton_append]
      · simp only [hj, if_false]
        -- a record of another task
        have hother : carrying id (records [x]) = [] := by
          refine List.filter_eq_nil_iff.mpr fun payload hp hc => ?_
          refine h (j, x) (List.mem_cons_self ..) hj ?_
          cases x with
          | line d =>
              obtain rfl : payload = d := by simpa [records] using hp
              exact of_decide_eq_true hc
          | row entry => exact absurd hp (by simp [records])
        rw [hother, List.nil_append]

/-- **The log is faithful.**  In every interleaving of any requests, with any
methods, paths, ids and tracebacks: the file is printable ASCII in lines, it
reads back as exactly the records that were formatted, in their order, and the
records that carry the id of a request which no other request uses are those
that handling this request has emitted; once it has ended, they are all of them
but the access line of an answer. -/
theorem log_faithful (root : Level) (es : ι → Exchange) (schedule : List ι)
    (texts : List String) (h : List.Forall₂ Written
      (records (((serve root es).run schedule).trace.map Prod.snd)) texts) :
    readLog (logFile texts) = some (records (((serve root es).run schedule).trace.map Prod.snd))
      ∧ (∀ c ∈ (logFile texts).toList, c = '\n' ∨ 32 ≤ c.toNat ∧ c.toNat ≤ 126)
      ∧ ∀ i, (es i).id ≠ "-" → (∀ j, j ≠ i → (es j).id ≠ (es i).id) →
          (readLog (logFile texts)).map (carrying (es i).id)
              = some (carrying (es i).id (records (((serve root es).run schedule).emitted i)))
            ∧ ∀ o, ((serve root es).run schedule).code i = .ret o →
                (readLog (logFile texts)).map (carrying (es i).id)
                  = some (records ((es i).own root)) := by
  have hread := readLog_logFile h
  have hown : ∀ i, (es i).id ≠ "-" → (∀ j, j ≠ i → (es j).id ≠ (es i).id) →
      (readLog (logFile texts)).map (carrying (es i).id)
        = some (carrying (es i).id (records (((serve root es).run schedule).emitted i))) := by
    intro i hdefault hdistinct
    rw [hread, Option.map_some]
    refine congrArg some (carrying_trace _ fun e he hj hid => ?_)
    -- a task tags with its own id, or with the default
    obtain ⟨access, hsplit, hmine, haccess⟩ := (es e.1).outputs_split root
    have hmem : e.2 ∈ ((es e.1).code root).outputs "-" :=
      @Tasks.mem_outputs _ _ _ _ _ (fun j => (es j).code root) _ _ _ _ he
    rw [hsplit] at hmem
    rcases List.mem_append.mp hmem with hmem | hmem
    · have hsame : some (Value.str (es e.1).id) = some (.str (es i).id) :=
        (hmine _ hmem).symm.trans hid
      exact hdistinct e.1 hj (by simpa using hsame)
    · have hsame : some (Value.str "-") = some (.str (es i).id) := (haccess _ hmem).symm.trans hid
      exact hdefault (by simpa using hsame.symm)
  refine ⟨hread, ?_, fun i hdefault hdistinct => ⟨hown i hdefault hdistinct, fun o ho => ?_⟩⟩
  · intro c hc
    unfold logFile at hc
    rw [String.toList_join, List.flatMap_map] at hc
    obtain ⟨t, ht, hct⟩ := List.mem_flatMap.mp hc
    obtain ⟨payload, hw⟩ := exists_written h ht
    rw [String.toList_append] at hct
    rcases List.mem_append.mp hct with hct | hct
    · exact Or.inr (hw.printable c hct)
    · exact Or.inl (by simpa using hct)
  · obtain ⟨access, hsplit, hmine, haccess⟩ := (es i).outputs_split root
    have hemitted : ((serve root es).run schedule).emitted i = ((es i).code root).outputs "-" :=
      (Tasks.finished ho).1
    rw [hown i hdefault hdistinct, hemitted, hsplit, records_append, carrying_append,
      carrying_tagged hmine, carrying_other haccess (Ne.symm hdefault), List.append_nil]

end

/-! ### A request that tries to write a line of its own. -/

def forgedId : String := "x\"\x7d\n\x7b\"level\": \"INFO\"\x7d"

/-- It fails, so its access line carries the id that it has sent. -/
def forgingGet : Exchange where
  request := ⟨"GET", "/requests", some forgedId⟩
  around := ⟨"b2c1", "2024-01-01T00:00:00+0000", 3⟩
  handling := ⟨[], .error "ValueError"⟩

/-- A request for chairs that is answered with 201, behind one audit entry. -/
def chairsPost : Exchange where
  request := ⟨"POST", "/requests", some "a7"⟩
  around := ⟨"c3d2", "2024-01-01T00:00:00+0000", 3⟩
  handling := ⟨[⟨1, .requestCreated, .productRequest, some 1, some 1, .product "chairs" 5,
    "2024-01-01T00:00:00+0000"⟩], .ok ⟨201, []⟩⟩

def forgedAndChairs : Bool → Exchange
  | true => forgingGet
  | false => chairsPost

/-- Both of them in turns. -/
def bothInTurns : List Bool := (List.replicate 10 [true, false, false]).flatten

/-- The members of the three lines: the audit entry, the failure, and the answer of the post,
which comes behind the reset of its id.  The duration is the float 3.0. -/
def bothMembers : List (List (String × Json)) :=
  [[("ts", .str "2024-01-01T00:00:00+0000"), ("level", .str "INFO"), ("logger", .str "app.audit"),
      ("request_id", .str "a7"), ("message", .str "audit"), ("action", .str "request.created"),
      ("entity_type", .str "product_request"), ("entity_id", .int 1), ("actor_id", .int 1)],
    [("ts", .str "2024-01-01T00:00:00+0000"), ("level", .str "ERROR"),
      ("logger", .str "app.access"), ("request_id", .str forgedId),
      ("message", .str "request_failed"), ("method", .str "GET"), ("path", .str "/requests"),
      ("duration_ms", .float ⟨false, 3, [0], by decide⟩), ("exc_info", .str "ValueError")],
    [("ts", .str "2024-01-01T00:00:00+0000"), ("level", .str "INFO"), ("logger", .str "app.access"),
      ("request_id", .str "-"), ("message", .str "request_completed"), ("method", .str "POST"),
      ("path", .str "/requests"), ("status", .int 201),
      ("duration_ms", .float ⟨false, 3, [0], by decide⟩)]]

theorem both_read : bothMembers.mapM readMembers
    = some (records (((serve .info forgedAndChairs).run bothInTurns).trace.map Prod.snd)) := by
  decide +kernel

/-- Each of the two ids picks its own lines out of the three. -/
theorem log_faithful_forged :
    let file := logFile (bothMembers.map fun members => dumps (.obj members))
    (readLog file).map List.length = some 3
      ∧ (readLog file).map (carrying forgedId) = some (records (forgingGet.own .info))
      ∧ (readLog file).map (carrying "a7") = some (records (chairsPost.own .info)) := by
  intro file
  obtain ⟨hread, _, hown⟩ := log_faithful .info forgedAndChairs bothInTurns _
    (written_of_readMembers both_read)
  have hforged : (forgedAndChairs true).id = forgedId := by decide
  have hchairs : (forgedAndChairs false).id = "a7" := by decide
  have hdiffer : forgedId ≠ "a7" := by decide
  refine ⟨?_, ?_, ?_⟩
  · rw [hread]
    exact congrArg (fun rs => rs.map List.length) both_read.symm
  · have hid := (hown true (by decide) fun j hj => ?_).2 (.error "ValueError") rfl
    · rwa [hforged] at hid
    · obtain rfl : j = false := by simpa using hj
      rw [hforged, hchairs]
      exact hdiffer.symm
  · have hid := (hown false (by decide) fun j hj => ?_).2 _ rfl
    · rwa [hchairs] at hid
    · obtain rfl : j = true := by simpa using hj
      rw [hforged, hchairs]
      exact hdiffer

end Procurement
