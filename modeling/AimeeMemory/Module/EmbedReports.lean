import AimeeMemory.Bus.ModuleProtocol
import AimeeMemory.Core.Store
import AimeeMemory.Lib.Threads
import AimeeMemory.Module.BreakerOpens

/-!
# What an admitted embedding reports

`Embed` of `embed.go` as a program over the breaker: it asks `allow`, and every way out of it
after that is to report. What the call finds outside (the request that is built, the answer of
the service, the decoded body) is a parameter, with any outcome.

## What is proved

* `embed_reported`: every path of `Embed` asks at most once, and reports once where it was let
  through.
* `embed_local`, `embed_unauthorized`: what the service never saw cancels, and what it refuses
  closes the breaker.
* **`embed_reports`**: with that, while no call runs the breaker has no probe in flight.
-/

namespace AimeeMemory.Module

open AimeeMemory.Lib
open AimeeMemory.Core (Text text)

/-- What the breaker answers: whether the call may proceed, and how long until the next chance. -/
abbrev Grant := Bool × Int64

/-- An operation of the breaker with its answer. A report has none. -/
def EmbedBreaker.perform (b : EmbedBreaker) : BreakerOp → Grant × EmbedBreaker
  | .allow nowMS =>
    let (allowed, retryAfter, b) := b.allow nowMS
    ((allowed, retryAfter), b)
  | op => ((true, 0), b.operate op)

structure EmbedRequest where
  baseURL : Text
  inputType : Text := []
  text : Text
  maxDim : Int
  nowMS : Int64 := 0
  deriving DecidableEq, Repr

structure EmbedResponse (F : Type) where
  vector : List F := []
  dim : ℕ := 0
  truncated : Bool := false
  unavailable : Bool := false
  retryAfterMS : Int64 := 0
  unauthorized : Bool := false
  error : Text := []
  deriving DecidableEq, Repr

/-- The service's answer, and whether reading its body fails. -/
structure HttpResponse where
  statusCode : Int
  body : List UInt8
  readErr : Bool := false

/-- What a call finds outside the package. `D` and `F` are the numbers of the answer and of the vector. -/
structure World (D F : Type) where
  /-- `time.Now().UnixMilli()`. -/
  wallClock : Int64
  /-- `url.QueryEscape`. -/
  queryEscape : Text → Text
  /-- `http.NewRequest` for an endpoint: the text of its error. -/
  newRequest : Text → Option Text
  /-- `embedHTTPClient.Do` for an endpoint and a text. -/
  send : Text → Text → Except Text HttpResponse
  /-- `json.Unmarshal` into numbers. -/
  unmarshal : List UInt8 → Option (List D)
  /-- `float32`. -/
  single : D → F

variable {D F : Type}

/-- `EmbedIsHTTP`. -/
def embedIsHTTP (command : Text) : Bool := (text "http://").isPrefixOf command || (text "https://").isPrefixOf command

def nowOr (w : World D F) (nowMS : Int64) : Int64 := if nowMS > 0 then nowMS else w.wallClock

/-- `strings.TrimSuffix(s, "/")`. -/
def trimSlash (s : Text) : Text := if s.getLast? = some 47 then s.dropLast else s

/-- The endpoint of a request. -/
def embedEndpoint (w : World D F) (request : EmbedRequest) : Text :=
  let endpoint := trimSlash request.baseURL ++ text "/embed"
  if request.inputType ≠ [] then endpoint ++ text "?input_type=" ++ w.queryEscape request.inputType else endpoint

/-- A report, and then the response. -/
def reporting (op : BreakerOp) (response : EmbedResponse F) : Prog BreakerOp Grant (EmbedResponse F) :=
  .op op fun _ => .ret response

/-- What `Embed` makes of the answer of the service. -/
def embedAnswer (w : World D F) (request : EmbedRequest) (now : Int64) (response : HttpResponse) :
    Prog BreakerOp Grant (EmbedResponse F) :=
  let payload := response.body.take Bus.ModuleMessageMaxBody.toNat
  if response.statusCode = 401 ∨ response.statusCode = 403 then
    reporting .reportSuccess
      { unauthorized := true, error := text ("embed: not authorized (HTTP " ++ toString response.statusCode ++ ")") }
  else if response.readErr ∨ response.statusCode < 200 ∨ response.statusCode > 299 ∨ payload.length = 0 then
    reporting (.reportFailure now) { error := text ("embed: HTTP " ++ toString response.statusCode) }
  else
    match w.unmarshal payload with
    | none => reporting (.reportFailure now) { error := text "embed: response is not a JSON array of numbers" }
    | some raw =>
      let truncated := raw.length > request.maxDim
      let vector := (if truncated then raw.take request.maxDim.toNat else raw).map w.single
      if vector.length = 0 then
        reporting (.reportFailure now) { error := text "embed: response carried no dimensions" }
      else reporting .reportSuccess { vector, dim := vector.length, truncated }

/-- What `Embed` does once it was let through. -/
def embedAdmitted (w : World D F) (request : EmbedRequest) (now : Int64) : Prog BreakerOp Grant (EmbedResponse F) :=
  if request.text = [] then reporting .cancelProbe { error := text "embed: empty text" }
  else
    match w.newRequest (embedEndpoint w request) with
    | some err => reporting .cancelProbe { error := text "embed: " ++ err }
    | none =>
      match w.send (embedEndpoint w request) request.text with
      | .error err => reporting (.reportFailure now) { error := text "embed: " ++ err }
      | .ok response => embedAnswer w request now response

/-- `Embed`. -/
def embed (w : World D F) (request : EmbedRequest) : Prog BreakerOp Grant (EmbedResponse F) :=
  let now := nowOr w request.nowMS
  if !embedIsHTTP request.baseURL then .ret { error := text "embed: base_url is not an http endpoint" }
  else if request.maxDim ≤ 0 then .ret { error := text "embed: max_dim must be positive" }
  else
    .op (.allow now) fun grant =>
      if !grant.1 then .ret { unavailable := true, retryAfterMS := grant.2 } else embedAdmitted w request now

/-! ### One call -/

def isReport : BreakerOp → Bool
  | .allow _ => false
  | _ => true

/-- What a call does to the breaker. -/
inductive Reported : List (BreakerOp × Grant) → Prop where
  /-- The request is declined before the breaker is asked. -/
  | declined : Reported []
  | suppressed (now retryAfter : Int64) : Reported [(.allow now, false, retryAfter)]
  /-- The call was let through, and reports once. -/
  | admitted (now retryAfter : Int64) {report : BreakerOp} (grant : Grant) (h : isReport report) :
      Reported [(.allow now, true, retryAfter), (report, grant)]

/-- The request is refused here: the service is not called. -/
def LocalRefusal (w : World D F) (request : EmbedRequest) : Prop :=
  request.text = [] ∨ (w.newRequest (embedEndpoint w request)).isSome

/-- The service was reached, and refuses the caller. -/
def AuthorizationRefusal (w : World D F) (request : EmbedRequest) : Prop :=
  ∃ response, w.send (embedEndpoint w request) request.text = .ok response ∧
    (response.statusCode = 401 ∨ response.statusCode = 403)

/-- A program that has nothing left but one report. -/
def Owes (p : Prog BreakerOp Grant (EmbedResponse F)) : Prop :=
  ∃ report response, isReport report ∧ p = reporting report response

theorem owes_embedAnswer (w : World D F) (request : EmbedRequest) (now : Int64) (response : HttpResponse) :
    Owes (embedAnswer w request now response) := by
  rw [embedAnswer]
  split_ifs
  · exact ⟨_, _, rfl, rfl⟩
  · exact ⟨_, _, rfl, rfl⟩
  · split
    · exact ⟨_, _, rfl, rfl⟩
    · simp only
      split_ifs <;> exact ⟨_, _, rfl, rfl⟩

/-- **A call that was let through owes a report**, whatever it meets. -/
theorem owes_embedAdmitted (w : World D F) (request : EmbedRequest) (now : Int64) :
    Owes (embedAdmitted w request now) := by
  rw [embedAdmitted]
  split_ifs
  · exact ⟨_, _, rfl, rfl⟩
  · split
    · exact ⟨_, _, rfl, rfl⟩
    · split
      · exact ⟨_, _, rfl, rfl⟩
      · exact owes_embedAnswer w request now _

variable {w : World D F} {request : EmbedRequest} {trace : List (BreakerOp × Grant)} {response : EmbedResponse F}

/-- A path of a report and a return. -/
theorem path_reporting {op : BreakerOp} {response' : EmbedResponse F} (h : Path (reporting op response') trace response) :
    ∃ grant, trace = [(op, grant)] ∧ response = response' := by
  obtain ⟨grant, rest, rfl, hrest⟩ := path_op h
  obtain ⟨rfl, rfl⟩ := path_ret hrest
  exact ⟨grant, rfl, rfl⟩

/-- The paths of `Embed`: it is declined or suppressed, or what it does once it was let through. -/
theorem path_embed (h : Path (embed w request) trace response) : trace = [] ∨
    (∃ now retryAfter, trace = [(.allow now, false, retryAfter)]) ∨
      ∃ now retryAfter rest, trace = (.allow now, true, retryAfter) :: rest ∧ Path (embedAdmitted w request now) rest response := by
  rw [embed] at h
  split_ifs at h
  · exact .inl (path_ret h).1
  · exact .inl (path_ret h).1
  · obtain ⟨⟨allowed, retryAfter⟩, rest, rfl, hrest⟩ := path_op h
    cases allowed with
    | false =>
      obtain ⟨rfl, -⟩ := path_ret hrest
      exact .inr (.inl ⟨_, _, rfl⟩)
    | true => exact .inr (.inr ⟨_, _, _, rfl, hrest⟩)

theorem embed_reported (h : Path (embed w request) trace response) : Reported trace := by
  rcases path_embed h with rfl | ⟨now, retryAfter, rfl⟩ | ⟨now, retryAfter, rest, rfl, hrest⟩
  · exact .declined
  · exact .suppressed now retryAfter
  · obtain ⟨report, response', hreport, hadmitted⟩ := owes_embedAdmitted w request now
    rw [hadmitted] at hrest
    obtain ⟨grant, rfl, -⟩ := path_reporting hrest
    exact .admitted now retryAfter grant hreport

/-- What is decided by one report at the end of a call is decided by every report of it. -/
theorem reports_of_admitted {op : BreakerOp} (h : Path (embed w request) trace response)
    (hop : ∀ now, ∃ response', embedAdmitted w request now = reporting op response') :
    ∀ e ∈ trace, isReport e.1 → e.1 = op := by
  rcases path_embed h with rfl | ⟨now, retryAfter, rfl⟩ | ⟨now, retryAfter, rest, rfl, hrest⟩
  · simp
  · simp [isReport]
  · obtain ⟨response', hadmitted⟩ := hop now
    rw [hadmitted] at hrest
    obtain ⟨grant, rfl, -⟩ := path_reporting hrest
    simp [isReport]

/-- A local refusal cancels. -/
theorem embed_local (hlocal : LocalRefusal w request) (h : Path (embed w request) trace response) :
    ∀ e ∈ trace, isReport e.1 → e.1 = .cancelProbe := by
  refine reports_of_admitted h fun now => ?_
  rw [embedAdmitted]
  by_cases htext : request.text = []
  · exact ⟨_, if_pos htext⟩
  · rw [if_neg htext]
    obtain ⟨err, herr⟩ := Option.isSome_iff_exists.1 (hlocal.resolve_left htext)
    exact ⟨_, by rw [herr]⟩

/-- A refusal of the service is a success, where the service was called. -/
theorem embed_unauthorized (hcalled : ¬LocalRefusal w request) (hrefused : AuthorizationRefusal w request)
    (h : Path (embed w request) trace response) : ∀ e ∈ trace, isReport e.1 → e.1 = .reportSuccess := by
  obtain ⟨answer, hanswer, hstatus⟩ := hrefused
  simp only [LocalRefusal, not_or, Option.not_isSome_iff_eq_none] at hcalled
  refine reports_of_admitted h fun now => ?_
  simp only [embedAdmitted, if_neg hcalled.1, hcalled.2, hanswer, embedAnswer, if_pos hstatus]
  exact ⟨_, rfl⟩

/-! ### Many calls -/

/-- Where a call of `Embed` can stand. -/
inductive StandsAt : Prog BreakerOp Grant (EmbedResponse F) → Prop where
  | asks (w : World D F) (request : EmbedRequest) : StandsAt (embed w request)
  | owes {p : Prog BreakerOp Grant (EmbedResponse F)} (h : Owes p) : StandsAt p
  | returned (response : EmbedResponse F) : StandsAt (.ret response)

/-- The first operation of `Embed` asks, and what follows owes a report where the answer is yes. -/
theorem embed_op {o : BreakerOp} {next : Grant → Prog BreakerOp Grant (EmbedResponse F)}
    (h : embed w request = .op o next) :
    ∃ now, o = .allow now ∧ ∀ grant : Grant, if grant.1 then Owes (next grant) else ∃ response, next grant = .ret response := by
  rw [embed] at h
  split_ifs at h
  cases h
  refine ⟨_, rfl, ?_⟩
  rintro ⟨allowed, retryAfter⟩
  cases allowed with
  | false => exact ⟨_, rfl⟩
  | true => exact owes_embedAdmitted w request _

theorem not_owes_ret (response : EmbedResponse F) : ¬Owes (.ret response) := by
  rintro ⟨report, response', -, heq⟩
  cases heq

theorem not_owes_allow {now : Int64} {next : Grant → Prog BreakerOp Grant (EmbedResponse F)} : ¬Owes (.op (.allow now) next) := by
  rintro ⟨report, response', hreport, heq⟩
  cases heq
  cases hreport

/-- A report clears the probe's flag. -/
theorem perform_report {op : BreakerOp} (h : isReport op) (b : EmbedBreaker) : (b.perform op).2.probeInflight = false := by
  cases op with
  | allow nowMS => cases h
  | reportSuccess => rfl
  | cancelProbe => rfl
  | reportFailure nowMS =>
    simp only [EmbedBreaker.perform, EmbedBreaker.operate, EmbedBreaker.reportFailure]
    split_ifs <;> rfl

/-- **The probe is a debt**: the call that was let through clears it with its report. -/
theorem embed_keepsDebt : KeepsDebt EmbedBreaker.perform (fun b => b.probeInflight = true)
    (StandsAt (D := D) (F := F)) Owes where
  ret := not_owes_ret
  next b o next hsound := by
    generalize hp : Prog.op o next = p at hsound
    cases hsound with
    | asks w request =>
      obtain ⟨now, -, hnext⟩ := embed_op hp.symm
      have hgrant := hnext (b.perform o).1
      split_ifs at hgrant
      · exact .owes hgrant
      · obtain ⟨response, hret⟩ := hgrant
        rw [hret]
        exact .returned response
    | owes h =>
      obtain ⟨report, response, -, rfl⟩ := h
      cases hp
      exact .returned response
    | returned response => cases hp
  debt b o next hsound hflag := by
    generalize hp : Prog.op o next = p at hsound
    cases hsound with
    | asks w request =>
      obtain ⟨now, rfl, hnext⟩ := embed_op hp.symm
      have hgrant := hnext (b.perform (.allow now)).1
      rcases b.allow_cases now with ⟨-, d, heq⟩ | ⟨-, d, heq⟩ | ⟨d, heq⟩
      · simp only [EmbedBreaker.perform, heq] at hgrant ⊢
        exact .inl (by simpa using hgrant)
      · simp only [EmbedBreaker.perform, heq] at hgrant ⊢
        exact .inl (by simpa using hgrant)
      · simp only [EmbedBreaker.perform, heq] at hflag
        exact .inr ⟨hflag, hp ▸ not_owes_allow⟩
    | owes h =>
      obtain ⟨report, response, hreport, rfl⟩ := h
      cases hp
      rw [perform_report hreport] at hflag
      cases hflag
    | returned response => cases hp

/-- A call of `Embed`, with what it finds outside. -/
abbrev EmbedCall (D F : Type) := World D F × EmbedRequest

/-- **Every admitted embedding reports** once, a local refusal or one of the service never as a failure; and after any
run of calls, whatever they meet, no probe is in flight while no call runs. -/
theorem embed_reports (D F : Type) :
    (∀ (w : World D F) (request : EmbedRequest) (trace : List (BreakerOp × Grant)) (response : EmbedResponse F),
      Path (embed w request) trace response →
        Reported trace ∧ (LocalRefusal w request ∨ AuthorizationRefusal w request →
          ∀ now grant, (BreakerOp.reportFailure now, grant) ∉ trace)) ∧
      ∀ moves : List (Move (EmbedCall D F)),
        let pool := run (Pool.step (fun call : EmbedCall D F => embed call.1 call.2) EmbedBreaker.perform) ⟨{}, []⟩ moves
        pool.threads = [] → pool.shared.probeInflight = false := by
  refine ⟨fun w request trace response h => ⟨embed_reported h, ?_⟩, ?_⟩
  · rintro hrefusal now grant hmem
    by_cases hlocal : LocalRefusal w request
    · exact BreakerOp.noConfusion (embed_local hlocal h _ hmem rfl)
    · exact BreakerOp.noConfusion (embed_unauthorized hlocal (hrefusal.resolve_left hlocal) h _ hmem rfl)
  · intro moves pool hnone
    have howed := owed_run embed_keepsDebt (fun call : EmbedCall D F => .asks call.1 call.2) (s := {}) (by simp) moves
    by_contra hflag
    obtain ⟨p, hp, -⟩ := howed.owed (by simpa using hflag)
    have hpool : p ∈ pool.threads := hp
    rw [hnone] at hpool
    cases hpool

/-- An empty text, with a service that would take it. -/
def emptyText : EmbedCall ℕ ℕ :=
  ({ wallClock := 1, queryEscape := id, newRequest := fun _ => none, send := fun _ _ => .ok ⟨200, [1], false⟩
     unmarshal := fun _ => some [1], single := id },
   { baseURL := text "http://e", text := [], maxDim := 1 })

/-- It is let through, and cancels. -/
theorem emptyText_cancels : ∃ response,
    Path (embed emptyText.1 emptyText.2) [(.allow 1, true, 0), (.cancelProbe, true, 0)] response ∧
      Reported [(.allow 1, true, 0), (.cancelProbe, true, 0)] := by
  have hpath : Path (embed emptyText.1 emptyText.2) [(.allow 1, true, 0), (.cancelProbe, true, 0)]
      { error := text "embed: empty text" } := .op (.op (.ret _))
  exact ⟨_, hpath, ((embed_reports ℕ ℕ).1 _ _ _ _ hpath).1⟩

end AimeeMemory.Module
