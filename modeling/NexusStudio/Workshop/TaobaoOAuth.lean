import Mathlib
import NexusStudio.Lib.Json
import NexusStudio.Lib.Machine
import NexusStudio.Server.Errors

/-!
# The Taobao authorization

`TaobaoOAuthService`: `build_authorize_url` starts an authorization under a state, `handle_callback` exchanges the code
that comes back with the state for a token.

* (checks) A callback needs a pending state, a code that its entry has not used, and thirty minutes at most.
* (law) A code is exchanged once, and a state yields one credential.
* (defect) The used codes are kept in the entry of the state: another state does not know them, a new URL for the state
  forgets them, and a state takes any number of codes.
-/

set_option linter.unusedSectionVars false

namespace NexusStudio.TaobaoOAuth

open JsonText Concurrent

def authorizeUrl : String := "https://oauth.taobao.com/authorize"

/-- `CODE_TTL`, in microseconds. -/
def codeTtl : Int := 30 * 60 * 1000000

inductive TaobaoAppType
  | selfDev
  | subscriptionIsv
  deriving DecidableEq, Repr

inductive ShopConnectionStatus
  | connected
  | reauthRequired
  | disconnected
  deriving DecidableEq, Repr

structure OAuthClientConfig where
  clientId : String
  clientSecret : String
  redirectUri : String
  appType : TaobaoAppType
  deriving DecidableEq, Repr

structure StoredCredential (ν : Type) where
  shopConnectionId : String
  accessToken : String
  expiresIn : Int
  expiresAt : Int
  refreshToken : Option (Value ν)
  reExpiresIn : Option Int
  taobaoUserNick : Option (Value ν)
  taobaoOpenUid : Option (Value ν)

structure ShopConnectionView where
  shopConnectionId : String
  status : ShopConnectionStatus
  appType : TaobaoAppType
  expiresAt : Option Int
  deriving DecidableEq, Repr

structure PendingAuth where
  state : String
  shopConnectionId : String
  createdAt : Int
  codeUsed : List String
  -- the call of `build_authorize_url` that made the entry
  build : Nat
  deriving DecidableEq, Repr

inductive Raised
  | oauth (code message : String)
  -- a response that is no JSON, a number that is none, a date out of range
  | other
  deriving DecidableEq, Repr

/-- What a post of a form comes back with, `none` where the body is no JSON. -/
inductive Response (ν : Type)
  | httpError (message : String)
  | response (status : Nat) (payload : Option (Value ν))

abbrev Form := List (String × String)

/-- The built-in readings of values, texts and dates. -/
structure Builtins (ν : Type) where
  str : Value ν → String
  int : Value ν → Option Int
  truth : Value ν → Bool
  urlencode : Form → String
  -- `now + timedelta(seconds=n)`
  plusSeconds : Int → Int → Option Int

/-- An exchange that returned a token response. -/
structure Exchange where
  code : String
  state : String
  build : Nat
  deriving DecidableEq, Repr

structure State (ν : Type) where
  pending : String → Option PendingAuth
  store : String → Option (StoredCredential ν)
  -- the calls of `build_authorize_url`, the exchanges, and the state of every credential that was stored
  builds : Nat
  exchanges : List Exchange
  yielded : List String

section Model

variable {ν : Type} (B : Builtins ν) (config : OAuthClientConfig)

/-- `state or secrets.token_urlsafe(24)`. -/
def csrfOf (state : Option String) (token : String) : String :=
  match state with
  | some x => if x = "" then token else x
  | none => token

/-- A new entry of a state. -/
def State.start (s : State ν) (csrf shopConnectionId : String) (now : Int) : State ν :=
  { s with
    pending := Function.update s.pending csrf (some ⟨csrf, shopConnectionId, now, [], s.builds⟩)
    builds := s.builds + 1 }

def buildAuthorizeUrl (s : State ν) (shopConnectionId : String) (state : Option String) (token : String) (now : Int) :
    String × State ν :=
  let csrf := csrfOf state token
  let query := B.urlencode [("client_id", config.clientId), ("response_type", "code"),
    ("redirect_uri", config.redirectUri), ("state", csrf)]
  (s!"{authorizeUrl}?{query}", s.start csrf shopConnectionId now)

/-- What `handle_callback` checks first. -/
def checkCallback (s : State ν) (code state : String) (now : Int) : Except Raised PendingAuth :=
  match s.pending state with
  | none => .error (.oauth "TAOBAO_OAUTH_STATE_MISMATCH" "oauth state mismatch")
  | some pending =>
    if pending.state ≠ state then .error (.oauth "TAOBAO_OAUTH_STATE_MISMATCH" "oauth state mismatch")
    else if code = "" ∨ strip code = "" then .error (.oauth "TAOBAO_OAUTH_CALLBACK_INVALID" "code required")
    else if code ∈ pending.codeUsed then
      .error (.oauth "TAOBAO_OAUTH_CODE_REUSED" "authorization code already used")
    else if codeTtl < now - pending.createdAt then
      .error (.oauth "TAOBAO_OAUTH_CODE_EXPIRED" "authorization code expired")
    else .ok pending

def tokenForm (code state : String) : Form :=
  [("client_id", config.clientId), ("client_secret", config.clientSecret), ("grant_type", "authorization_code"),
    ("code", code), ("redirect_uri", config.redirectUri), ("state", state)]

/-- A field that is there and true. -/
def truthy (payload : List (String × Value ν)) (name : String) : Option (Value ν) :=
  (payload.lookup name).filter B.truth

/-- `_exchange_code`. -/
def exchangeCode (post : Form → Response ν) (code state : String) : Except Raised (List (String × Value ν)) :=
  match post (tokenForm config code state) with
  | .httpError message => .error (.oauth "TAOBAO_OAUTH_HTTP_ERROR" message)
  | .response status payload =>
    if 400 ≤ status then .error (.oauth "TAOBAO_OAUTH_PROVIDER_ERROR" s!"token http {status}")
    else
      match payload with
      | none => .error .other
      | some (.dict result) =>
        match (truthy B result "error_description").or (truthy B result "error") with
        | some v => .error (.oauth "TAOBAO_OAUTH_PROVIDER_ERROR" (B.str v))
        | none => .ok result
      | some _ => .error (.oauth "TAOBAO_OAUTH_TOKEN_INVALID" "token response not an object")

def intOf (v : Value ν) : Except Raised Int :=
  match B.int v with
  | some n => .ok n
  | none => .error .other

/-- `_optional_int`. -/
def optionalInt : Option (Value ν) → Except Raised (Option Int)
  | none | some .null | some (.string "") => .ok none
  | some v => (intOf B v).map some

/-- `payload.get(name)`, with `None` for null. -/
def given (payload : List (String × Value ν)) (name : String) : Option (Value ν) :=
  match payload.lookup name with
  | none | some .null => none
  | some v => some v

/-- The credential that `handle_callback` makes of a token response. -/
def credentialOf (shopConnectionId : String) (payload : List (String × Value ν)) (now : Int) :
    Except Raised (StoredCredential ν) :=
  match truthy B payload "access_token" with
  | none => .error (.oauth "TAOBAO_OAUTH_TOKEN_INVALID" "token response missing access_token")
  | some accessToken =>
    match ((truthy B payload "expires_in").map (intOf B)).getD (.ok 0) with
    | .error r => .error r
    | .ok expiresIn =>
      if expiresIn ≤ 0 then .error (.oauth "TAOBAO_OAUTH_TOKEN_INVALID" "token response missing expires_in")
      else
        match B.plusSeconds now expiresIn with
        | none => .error .other
        | some expiresAt =>
          (optionalInt B (payload.lookup "re_expires_in")).map fun reExpiresIn =>
            ⟨shopConnectionId, B.str accessToken, expiresIn, expiresAt, given payload "refresh_token", reExpiresIn,
              given payload "taobao_user_nick", given payload "taobao_open_uid"⟩

/-- `public_view`. -/
def publicView (s : State ν) (shopConnectionId : String) (now : Int) : ShopConnectionView :=
  match s.store shopConnectionId with
  | none => ⟨shopConnectionId, .disconnected, config.appType, none⟩
  | some c =>
    ⟨shopConnectionId, if c.expiresAt ≤ now then .reauthRequired else .connected, config.appType, some c.expiresAt⟩

/-- `pending.code_used.add(code)`. -/
def State.useCode (s : State ν) (code state : String) (pending : PendingAuth) : State ν :=
  { s with
    pending := Function.update s.pending state (some { pending with codeUsed := code :: pending.codeUsed })
    exchanges := ⟨code, state, pending.build⟩ :: s.exchanges }

/-- `store.save`. -/
def State.save (s : State ν) (state : String) (c : StoredCredential ν) : State ν :=
  { s with store := Function.update s.store c.shopConnectionId (some c), yielded := state :: s.yielded }

def handleCallback (s : State ν) (code state : String) (now : Int) (post : Form → Response ν) :
    Except Raised ShopConnectionView × State ν :=
  match checkCallback s code state now with
  | .error r => (.error r, s)
  | .ok pending =>
    match exchangeCode B config post code state with
    | .error r => (.error r, s)
    | .ok payload =>
      let s := s.useCode code state pending
      match credentialOf B pending.shopConnectionId payload now with
      | .error r => (.error r, s)
      | .ok c =>
        let s := s.save state c
        (.ok (publicView config s pending.shopConnectionId now), s)

/-! ### The machine -/

inductive Action (ν : Type)
  | build (shopConnectionId : String) (state : Option String) (token : String) (now : Int)
  | callback (code state : String) (now : Int) (post : Form → Response ν)

def step (s : State ν) : Action ν → Option (State ν)
  | .build shopConnectionId state token now => some (buildAuthorizeUrl B config s shopConnectionId state token now).2
  | .callback code state now post => some (handleCallback B config s code state now post).2

/-- A service before its first call, with any credentials. -/
structure Initial (s : State ν) : Prop where
  pending : s.pending = fun _ => none
  exchanges : s.exchanges = []
  yielded : s.yielded = []

def oauth : Machine (State ν) (Action ν) where
  init := Initial
  step := step B config

/-- A code is exchanged at most once, and a state yields at most one credential. -/
structure Law (s : State ν) : Prop where
  codes : ∀ code, s.exchanges.countP (fun e => e.code = code) ≤ 1
  states : ∀ state, s.yielded.count state ≤ 1

/-- A callback that gets a token brings a code that was exchanged, if at all, under its state since the last URL for it;
and a state that has a credential gets no second one. -/
def Safe (s : State ν) : Action ν → Prop
  | .callback code state now post =>
    match checkCallback s code state now, exchangeCode B config post code state with
    | .ok pending, .ok payload =>
      (∀ e ∈ s.exchanges, e.code = code → e.state = state ∧ e.build = pending.build) ∧
        ((credentialOf B pending.shopConnectionId payload now).toBool = true → state ∉ s.yielded)
    | _, _ => True
  | _ => True

instance (s : State ν) (a : Action ν) : Decidable (Safe B config s a) := by
  unfold Safe
  repeat' split
  all_goals infer_instance

end Model

/-! ### One call -/

section Proofs

variable {ν : Type} {B : Builtins ν} {config : OAuthClientConfig} {s t : State ν} {a : Action ν}

/-- An entry knows the codes that were exchanged under its state since it was made. -/
structure Inv (s : State ν) : Prop where
  pending : ∀ state, ∀ p ∈ s.pending state, p.build < s.builds ∧
    ∀ e ∈ s.exchanges, e.state = state → e.build = p.build → e.code ∈ p.codeUsed
  exchanges : ∀ e ∈ s.exchanges, e.build < s.builds

theorem inv_init (h : Initial s) : Inv s := by
  refine ⟨fun state p hp => ?_, fun e he => ?_⟩
  · rw [h.pending] at hp
    cases hp
  · rw [h.exchanges] at he
    cases he

theorem law_init (h : Initial s) : Law s := by
  refine ⟨fun code => ?_, fun state => ?_⟩
  · rw [h.exchanges]
    exact Nat.zero_le _
  · rw [h.yielded]
    exact Nat.zero_le _

/-- A callback that passes the checks has the entry of its state, which has not used the code. -/
theorem checkCallback_ok {code state : String} {now : Int} {p : PendingAuth}
    (h : checkCallback s code state now = .ok p) : p ∈ s.pending state ∧ code ∉ p.codeUsed := by
  unfold checkCallback at h
  split at h
  · cases h
  · next q hq =>
    split at h
    · cases h
    · split at h
      · cases h
      · split at h
        · cases h
        · next hused =>
          split at h
          · cases h
          · cases h
            exact ⟨hq, hused⟩

/-- A code that was exchanged under the state since its last URL is refused. -/
theorem refused_of_exchanged (hI : Inv s) {code state : String} {now : Int} {p : PendingAuth} {e : Exchange}
    (he : e ∈ s.exchanges) (hp : p ∈ s.pending state) (hcode : e.code = code) (hstate : e.state = state)
    (hbuild : e.build = p.build) : ∃ r, checkCallback s code state now = .error r := by
  cases h : checkCallback s code state now with
  | error r => exact ⟨r, rfl⟩
  | ok q =>
    obtain ⟨hq, hused⟩ := checkCallback_ok h
    cases hp.symm.trans hq
    exact absurd (hcode ▸ (hI.pending state p hp).2 e he hstate hbuild) hused

theorem inv_start (hI : Inv s) (csrf shopConnectionId : String) (now : Int) :
    Inv (s.start csrf shopConnectionId now) := by
  refine ⟨fun x p hp => ?_, fun e he => (hI.exchanges e he).trans (Nat.lt_succ_self _)⟩
  by_cases hx : x = csrf
  · subst hx
    simp only [State.start, Option.mem_def, Function.update_self, Option.some.injEq] at hp
    subst hp
    refine ⟨Nat.lt_succ_self _, fun e he _ hbuild => ?_⟩
    exact absurd hbuild (hI.exchanges e he).ne
  · simp only [State.start, Option.mem_def, Function.update_of_ne hx] at hp
    obtain ⟨hlt, hused⟩ := hI.pending x p hp
    exact ⟨hlt.trans (Nat.lt_succ_self _), hused⟩

theorem inv_useCode (hI : Inv s) {code state : String} {p : PendingAuth} (hp : p ∈ s.pending state) :
    Inv (s.useCode code state p) := by
  obtain ⟨hlt, hused⟩ := hI.pending state p hp
  refine ⟨fun x q hq => ?_, fun e he => ?_⟩
  · by_cases hx : x = state
    · subst hx
      simp only [State.useCode, Option.mem_def, Function.update_self, Option.some.injEq] at hq
      subst hq
      refine ⟨hlt, fun e he hstate hbuild => ?_⟩
      rcases List.mem_cons.1 he with rfl | he
      · exact List.mem_cons_self
      · exact List.mem_cons_of_mem _ (hused e he hstate hbuild)
    · simp only [State.useCode, Option.mem_def, Function.update_of_ne hx] at hq
      obtain ⟨hlt', hused'⟩ := hI.pending x q hq
      refine ⟨hlt', fun e he hstate hbuild => ?_⟩
      rcases List.mem_cons.1 he with rfl | he
      · exact absurd hstate.symm hx
      · exact hused' e he hstate hbuild
  · rcases List.mem_cons.1 he with rfl | he
    · exact hlt
    · exact hI.exchanges e he

/-- One more exchange keeps the codes apart exactly if its code was not exchanged elsewhere. -/
theorem codes_useCode (hI : Inv s) (hL : ∀ code, s.exchanges.countP (fun e => e.code = code) ≤ 1)
    {code state : String} {now : Int} {p : PendingAuth} (hcheck : checkCallback s code state now = .ok p) :
    (∀ c, (s.useCode code state p).exchanges.countP (fun e => e.code = c) ≤ 1) ↔
      ∀ e ∈ s.exchanges, e.code = code → e.state = state ∧ e.build = p.build := by
  obtain ⟨hp, hused⟩ := checkCallback_ok hcheck
  have hfresh : (∀ e ∈ s.exchanges, e.code = code → e.state = state ∧ e.build = p.build) ↔
      s.exchanges.countP (fun e => e.code = code) = 0 := by
    rw [List.countP_eq_zero]
    refine ⟨fun h e he hcode => ?_, fun h e he hcode => absurd (decide_eq_true hcode) (h e he)⟩
    have hcode := of_decide_eq_true hcode
    obtain ⟨hstate, hbuild⟩ := h e he hcode
    exact hused (hcode ▸ (hI.pending state p hp).2 e he hstate hbuild)
  rw [hfresh]
  simp only [State.useCode, List.countP_cons]
  constructor
  · intro h
    have hone := h code
    rw [if_pos (decide_eq_true rfl)] at hone
    omega
  · intro h c
    by_cases hc : code = c
    · subst hc
      rw [if_pos (decide_eq_true rfl), h]
    · rw [if_neg (by simpa using hc)]
      exact hL c

theorem states_save (hL : ∀ state, s.yielded.count state ≤ 1) (state : String) (c : StoredCredential ν) :
    (∀ x, (s.save state c).yielded.count x ≤ 1) ↔ state ∉ s.yielded := by
  simp only [State.save, List.count_cons]
  constructor
  · intro h
    have hone := h state
    rw [if_pos (beq_self_eq_true state)] at hone
    exact List.count_eq_zero.1 (by omega)
  · intro h x
    by_cases hx : state = x
    · subst hx
      rw [if_pos (beq_self_eq_true state), List.count_eq_zero.2 h]
    · rw [if_neg (by simpa using hx)]
      exact hL x

/-- A step from a state with the law keeps it exactly under the condition. -/
theorem law_step (hI : Inv s) (hL : Law s) (h : step B config s a = some t) :
    Inv t ∧ (Law t ↔ Safe B config s a) := by
  cases a with
  | build shopConnectionId state token now =>
    cases h
    exact ⟨inv_start hI .., fun _ => trivial, fun _ => ⟨hL.codes, hL.states⟩⟩
  | callback code state now post =>
    cases h
    cases hcheck : checkCallback s code state now with
    | error r =>
      simp only [handleCallback, Safe, hcheck]
      exact ⟨hI, fun _ => trivial, fun _ => hL⟩
    | ok p =>
      cases hexchange : exchangeCode B config post code state with
      | error r =>
        simp only [handleCallback, Safe, hcheck, hexchange]
        exact ⟨hI, fun _ => trivial, fun _ => hL⟩
      | ok payload =>
        have hI' : Inv (s.useCode code state p) := inv_useCode hI (checkCallback_ok hcheck).1
        have hcodes := codes_useCode hI hL.codes hcheck
        simp only [handleCallback, Safe, hcheck, hexchange]
        cases hc : credentialOf B p.shopConnectionId payload now with
        | error r =>
          exact ⟨hI', fun h => ⟨hcodes.1 h.codes, fun hok => (by cases hok)⟩, fun h => ⟨hcodes.2 h.1, hL.states⟩⟩
        | ok c =>
          have hstates := states_save (s := s.useCode code state p) hL.states state c
          refine ⟨⟨hI'.pending, hI'.exchanges⟩, fun h => ⟨hcodes.1 h.codes, fun _ => hstates.1 h.states⟩, fun h => ?_⟩
          exact ⟨hcodes.2 h.1, hstates.2 (h.2 rfl)⟩

end Proofs

/-! ### A code under two states -/

section Runs

/-- Readings of the values below. -/
def readings : Builtins Int where
  str v := match v with
    | .string s => s
    | _ => ""
  int v := match v with
    | .number n => some n
    | _ => none
  truth v := match v with
    | .string s => s ≠ ""
    | .number n => n ≠ 0
    | _ => false
  urlencode _ := ""
  plusSeconds now n := some (now + n * 1000000)

def app : OAuthClientConfig := ⟨"app", "secret", "https://example.test/oauth/callback", .selfDev⟩

def started : State Int := ⟨fun _ => none, fun _ => none, 0, [], []⟩

theorem initial_started : Initial started := ⟨rfl, rfl, rfl⟩

/-- A token for a day. -/
def granted : Form → Response Int := fun _ =>
  .response 200 (some (.dict [("access_token", .string "tok"), ("expires_in", .number 86400)]))

def refused : Form → Response Int := fun _ =>
  .response 200 (some (.dict [("error", .string "invalid_code"), ("error_description", .string "code expire")]))

end Runs

end NexusStudio.TaobaoOAuth
