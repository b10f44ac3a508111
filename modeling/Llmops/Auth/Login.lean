import Llmops.Auth.Sso

/-!
# What a session proves

A session is granted by a callback, a callback belongs to a login, and between the three any other
requests run. The server remembers none of this: it has only the two signed cookies, under one
secret. `Authentic` says what is nevertheless true of every session that was granted, and
`SsoInv` carries it through a run.

* `session_sound`: a request that gets an actor from its cookie has a session whose login, nonce,
  PKCE verifier and role all belong together;
* `token_opens`: exactly what each of the issued tokens is good for, and until when;
* `mapRole_mono_iff`: when more groups never mean less of a role.
-/

namespace Llmops.Auth

open Llmops.Lib

variable {jwt : Jwt} {s256 lower : String → String} {str : Json → String} {settings : SsoSettings}
  {now : ℚ} {s t : SsoState}

/-! ## What the endpoints do -/

theorem requireSso_eq_ok {u : Unit} : requireSso settings = .ok u ↔ settings.ssoEnabled = true := by
  unfold requireSso
  split_ifs with h <;> simp [h]

theorem ssoLogin_eq_ok {discovery : Option Discovery} {origin : Origin} {next : Option String}
    {secrets : Secrets} {l : Login}
    (h : ssoLogin s256 settings now discovery origin next secrets = .ok l) :
    settings.ssoEnabled = true ∧ l.time = now := by
  unfold ssoLogin at h
  cases hsso : requireSso settings with
  | error e => rw [hsso] at h; cases h
  | ok _ =>
    rw [hsso] at h
    cases discovery with
    | none => cases h
    | some doc =>
      cases h
      exact ⟨requireSso_eq_ok.mp hsso, rfl⟩

theorem readTx_eq_some {cookie : Option String} {tx : Payload} (h : readTx jwt now cookie = some tx) :
    ∃ token, cookie = some token ∧ jwt.check now token = some tx := by
  obtain ⟨h, -⟩ := Option.filter_eq_some_iff.mp h
  obtain ⟨token, htoken, h⟩ := Option.bind_eq_some_iff.mp h
  exact ⟨token, (truthy_eq_some.mp htoken).1, h⟩

/-- The query of a callback that names the transaction's state and has a code. -/
structure Query.Fits (query : Query) (tx : Payload) (p : Pending) : Prop where
  error : truthy query.error = none
  state : query.state = some p.state
  state_ne : p.state ≠ ""
  same : tx.state = some p.state
  ascii : isAscii p.state = true
  code : truthy query.code = some p.code

/-- Exactly which callbacks are begun. -/
theorem beginCallback_eq_ok {cookie : Option String} {query : Query} {p : Pending} :
    beginCallback jwt settings now cookie query = .ok p ↔
      settings.ssoEnabled = true ∧ readTx jwt now cookie = some p.tx ∧ query.Fits p.tx p ∧
        p.time = now ∧ p.discovery = none := by
  unfold beginCallback
  constructor
  · intro h
    cases hsso : requireSso settings with
    | error e => rw [hsso] at h; cases h
    | ok _ =>
      rw [hsso] at h
      cases herror : truthy query.error with
      | some e => simp [herror, bind, Except.bind] at h
      | none =>
        cases htx : readTx jwt now cookie with
        | none => simp [herror, htx, bind, Except.bind] at h
        | some tx =>
          cases hstate : truthy query.state with
          | none => simp [herror, htx, hstate, bind, Except.bind] at h
          | some state =>
            cases hexpected : tx.state with
            | none => simp [herror, htx, hstate, hexpected, bind, Except.bind] at h
            | some expected =>
              simp only [herror, htx, hstate, hexpected, bind, Except.bind] at h
              split_ifs at h with hascii hne
              cases hcode : truthy query.code with
              | none => simp [hcode] at h
              | some code =>
                simp only [hcode, Except.ok.injEq] at h
                subst h
                simp only [not_or, Bool.not_eq_false] at hascii
                have hstate' := truthy_eq_some.mp hstate
                obtain rfl := not_not.mp hne
                exact ⟨requireSso_eq_ok.mp hsso, rfl,
                  ⟨herror, hstate'.1, hstate'.2, hexpected, hascii.1, hcode⟩, rfl, rfl⟩
  · rintro ⟨hsso, htx, hfits, htime, hdoc⟩
    have hstate : truthy query.state = some p.state :=
      truthy_eq_some.mpr ⟨hfits.state, hfits.state_ne⟩
    have hok : requireSso settings = .ok () := requireSso_eq_ok.mpr hsso
    simp only [hok, hfits.error, htx, hstate, hfits.same, hfits.code, hfits.ascii, bind, Except.bind]
    obtain ⟨time, tx, state, code, doc⟩ := p
    simp only at htime hdoc
    subst htime hdoc
    simp

theorem verified_eq_some {p : Pending} {answer : Option IdClaims} {claims : IdClaims}
    (h : verified p answer = some claims) :
    answer = some claims ∧ p.exchange.isSome ∧ ∃ nonce, p.tx.nonce = some nonce ∧
      claims.nonce = some nonce := by
  unfold verified at h
  obtain ⟨exchange, hexchange, h⟩ := Option.bind_eq_some_iff.mp h
  obtain ⟨claims', hanswer, h⟩ := Option.bind_eq_some_iff.mp h
  obtain ⟨nonce, hnonce, h⟩ := Option.bind_eq_some_iff.mp h
  split_ifs at h with heq
  obtain rfl := Option.some.inj h
  exact ⟨hanswer, Option.isSome_of_mem hexchange, nonce, hnonce, heq⟩

theorem finishCallback_eq_ok {p : Pending} {answer : Option IdClaims} {g : Granted}
    (h : finishCallback lower str settings now p answer = .ok g) :
    g.time = now ∧ g.pending = p ∧ verified p answer = some g.claims ∧
      roleOf lower str settings g.claims = some g.role := by
  unfold finishCallback at h
  cases hv : verified p answer with
  | none => simp [hv] at h
  | some claims =>
    cases hrole : roleOf lower str settings claims with
    | none => simp [hv, hrole] at h
    | some role =>
      simp only [hv, hrole, Except.ok.injEq] at h
      subst h
      exact ⟨rfl, rfl, rfl, hrole⟩

/-! ## The invariant -/

/-- A callback in flight belongs to a login that was redirected less than five minutes before. -/
structure Follows (p : Pending) (l : Login) : Prop where
  tx : p.tx = l.payload
  state : p.state = l.secrets.state
  after : l.time ≤ p.time
  before : p.time < ⌊l.time⌋ + txTtl

/-- **A granted session and its login.** -/
structure Authentic (lower : String → String) (str : Json → String) (settings : SsoSettings)
    (s : SsoState) (g : Granted) (l : Login) : Prop where
  enabled : settings.ssoEnabled = true
  login : l ∈ s.logins
  follows : Follows g.pending l
  begun : g.pending.time ≤ g.time
  past : g.time ≤ s.now
  nonce : g.claims.nonce = some l.secrets.nonce
  exchange : ∃ entry ∈ s.fetched, g.pending.time < entry.1 + discoveryTtl ∧
    g.pending.exchange =
      some ⟨entry.2.tokenEndpoint, g.pending.code, l.secrets.verifier, l.redirect⟩
  role : roleOf lower str settings g.claims = some g.role

/-- The invariant of a run. -/
structure SsoInv (lower : String → String) (str : Json → String) (settings : SsoSettings)
    (s : SsoState) : Prop where
  cache : ∀ entry ∈ s.discovery, entry ∈ s.fetched
  logins : ∀ l ∈ s.logins, settings.ssoEnabled = true ∧ l.time ≤ s.now
  pending : ∀ p ∈ s.pending, settings.ssoEnabled = true ∧ p.time ≤ s.now ∧
    (∃ l ∈ s.logins, Follows p l) ∧
      ∀ doc ∈ p.discovery, ∃ entry ∈ s.fetched, entry.2 = doc ∧ p.time < entry.1 + discoveryTtl
  granted : ∀ g ∈ s.granted, ∃ l, Authentic lower str settings s g l

/-- The record of a state is in that of a later one. -/
structure Grows (s t : SsoState) : Prop where
  now : s.now ≤ t.now
  logins : s.logins ⊆ t.logins
  fetched : s.fetched ⊆ t.fetched

theorem Authentic.grows {g : Granted} {l : Login} (h : Authentic lower str settings s g l)
    (hst : Grows s t) : Authentic lower str settings t g l :=
  { h with
    login := hst.logins h.login
    past := h.past.trans hst.now
    exchange := h.exchange.imp fun _ hentry => ⟨hst.fetched hentry.1, hentry.2⟩ }

/-- What the invariant says of the callbacks in flight stays true of those that stay. -/
theorem SsoInv.grows (h : SsoInv lower str settings s) (hst : Grows s t)
    (hcache : ∀ entry ∈ t.discovery, entry ∈ t.fetched)
    (hlogins : ∀ l ∈ t.logins, l ∈ s.logins ∨ (settings.ssoEnabled = true ∧ l.time ≤ t.now))
    (hpending : ∀ p ∈ t.pending, p ∈ s.pending ∨ (settings.ssoEnabled = true ∧ p.time ≤ t.now ∧
      (∃ l ∈ t.logins, Follows p l) ∧ ∀ doc ∈ p.discovery,
        ∃ entry ∈ t.fetched, entry.2 = doc ∧ p.time < entry.1 + discoveryTtl))
    (hgranted : ∀ g ∈ t.granted, g ∈ s.granted ∨ ∃ l, Authentic lower str settings t g l) :
    SsoInv lower str settings t where
  cache := hcache
  logins l hl := by
    refine (hlogins l hl).elim (fun hold => ?_) id
    exact ⟨(h.logins l hold).1, (h.logins l hold).2.trans hst.now⟩
  pending p hp := by
    refine (hpending p hp).elim (fun hold => ?_) id
    obtain ⟨henabled, htime, ⟨l, hl, hfollows⟩, hdoc⟩ := h.pending p hold
    refine ⟨henabled, htime.trans hst.now, ⟨l, hst.logins hl, hfollows⟩, fun doc hd => ?_⟩
    exact (hdoc doc hd).imp fun _ hentry => ⟨hst.fetched hentry.1, hentry.2⟩
  granted g hg := by
    refine (hgranted g hg).elim (fun hold => ?_) id
    exact (h.granted g hold).imp fun _ hl => hl.grows hst

/-- The transaction of a callback that nobody forged is that of a login. -/
theorem follows_of_begin (h : SsoInv lower str settings s) {cookie : Option String} {query : Query}
    {p : Pending} (hgenuine : ∀ token ∈ cookie, jwt.Genuine s.now (s.issued settings) token)
    (hp : beginCallback jwt settings s.now cookie query = .ok p) : ∃ l ∈ s.logins, Follows p l := by
  obtain ⟨-, htx, hfits, htime, -⟩ := beginCallback_eq_ok.mp hp
  obtain ⟨token, rfl, hcheck⟩ := readTx_eq_some htx
  obtain ⟨hissued, hlive, -⟩ := (hgenuine token rfl).accepted hcheck
  rcases hissued with ⟨l, hl, hpayload⟩ | ⟨g, -, hpayload⟩
  · have hexp : s.now < ⌊l.time⌋ + txTtl := by
      rw [← hpayload] at hlive
      simpa [live, Login.payload] using hlive
    have hstate : some l.secrets.state = some p.state := by
      rw [← hfits.same, ← hpayload]
      rfl
    exact ⟨l, hl, hpayload.symm, (Option.some.inj hstate).symm, htime ▸ (h.logins l hl).2, htime ▸ hexp⟩
  · -- the payload of a session has no state
    have hnone : p.tx.state = none := by
      rw [← hpayload]
      rfl
    rw [hfits.same] at hnone
    cases hnone

theorem mem_fetched_of_cached {doc : Discovery} (h : SsoInv lower str settings s)
    (hdoc : cachedDiscovery s.now s.discovery = some doc) :
    ∃ entry ∈ s.fetched, entry.2 = doc ∧ s.now < entry.1 + discoveryTtl := by
  obtain ⟨entry, hentry, rfl⟩ := Option.map_eq_some_iff.mp hdoc
  obtain ⟨hmem, hfresh⟩ := Option.filter_eq_some_iff.mp hentry
  have hfresh : s.now - entry.1 < discoveryTtl := of_decide_eq_true hfresh
  exact ⟨entry, h.cache entry hmem, rfl, by linarith⟩

/-- A session that is granted is authentic. -/
theorem authentic_of_finish (h : SsoInv lower str settings s) {i : Nat} {p : Pending}
    {answer : Option IdClaims} {g : Granted} (hp : s.pending[i]? = some p)
    (hg : finishCallback lower str settings s.now p answer = .ok g) :
    ∃ l, Authentic lower str settings s g l := by
  obtain ⟨htime, rfl, hverified, hrole⟩ := finishCallback_eq_ok hg
  obtain ⟨-, hexchange, nonce, hnonce, hclaims⟩ := verified_eq_some hverified
  obtain ⟨henabled, hpast, ⟨l, hl, hfollows⟩, hdoc⟩ :=
    h.pending g.pending (List.mem_of_getElem? hp)
  have hnonce' : nonce = l.secrets.nonce := by
    rw [hfollows.tx] at hnonce
    exact (Option.some.inj hnonce).symm
  obtain ⟨exchange, hexchange⟩ := Option.isSome_iff_exists.mp hexchange
  obtain ⟨doc, hdoc', hrest⟩ := Option.bind_eq_some_iff.mp hexchange
  obtain ⟨entry, hentry, rfl, hfresh⟩ := hdoc doc hdoc'
  refine ⟨l, henabled, hl, hfollows, htime ▸ hpast, htime.le, hnonce' ▸ hclaims,
    ⟨entry, hentry, hfresh, ?_⟩, hrole⟩
  unfold Pending.exchange
  rw [hdoc', hfollows.tx]
  rfl

/-- **Every event keeps the invariant.** -/
theorem ssoInv_step {e : SsoEvent} (h : SsoInv lower str settings s)
    (hgenuine : unforged jwt settings s e)
    (he : ssoStep jwt s256 lower str settings s e = some t) : SsoInv lower str settings t := by
  have hsame : Grows s s := ⟨le_rfl, List.Subset.refl _, List.Subset.refl _⟩
  cases e with
  | wait δ =>
    simp only [ssoStep] at he
    split_ifs at he with hδ
    obtain rfl := Option.some.inj he
    have hst : Grows s { s with now := s.now + δ } :=
      ⟨le_add_of_nonneg_right hδ, List.Subset.refl _, List.Subset.refl _⟩
    exact h.grows hst h.cache (fun _ => .inl) (fun _ => .inl) fun _ => .inl
  | fetched doc =>
    obtain rfl := Option.some.inj he
    have hst : Grows s { s with
        discovery := some (s.now, doc), fetched := (s.now, doc) :: s.fetched } :=
      ⟨le_rfl, List.Subset.refl _, List.subset_cons_self _ _⟩
    refine h.grows hst (fun entry hentry => ?_) (fun _ => .inl) (fun _ => .inl) fun _ => .inl
    rw [← Option.some.inj hentry]
    exact List.mem_cons_self
  | login origin next secrets =>
    simp only [ssoStep] at he
    cases hl : ssoLogin s256 settings s.now (cachedDiscovery s.now s.discovery) origin next
      secrets with
    | error e =>
      rw [hl] at he
      exact Option.some.inj he ▸ h
    | ok l =>
      rw [hl] at he
      obtain rfl := Option.some.inj he
      have hst : Grows s { s with logins := l :: s.logins } :=
        ⟨le_rfl, List.subset_cons_self _ _, List.Subset.refl _⟩
      refine h.grows hst h.cache (fun l' hl' => ?_) (fun _ => .inl) fun _ => .inl
      rcases List.mem_cons.mp hl' with rfl | hl'
      · exact .inr ⟨(ssoLogin_eq_ok hl).1, (ssoLogin_eq_ok hl).2.le⟩
      · exact .inl hl'
  | callback cookie query =>
    simp only [ssoStep] at he
    cases hp : beginCallback jwt settings s.now cookie query with
    | error e =>
      rw [hp] at he
      exact Option.some.inj he ▸ h
    | ok p =>
      rw [hp] at he
      obtain rfl := Option.some.inj he
      have hst : Grows s { s with pending := s.pending ++ [p] } := ⟨le_rfl, hsame.2, hsame.3⟩
      refine h.grows hst h.cache (fun _ => .inl) (fun p' hp' => ?_) fun _ => .inl
      rcases List.mem_append.mp hp' with hp' | hp'
      · exact .inl hp'
      · obtain rfl := List.mem_singleton.mp hp'
        obtain ⟨henabled, -, -, htime, hdoc⟩ := beginCallback_eq_ok.mp hp
        refine .inr ⟨henabled, htime.le, follows_of_begin h hgenuine hp, fun doc hd => ?_⟩
        rw [hdoc] at hd
        cases hd
  | locate i =>
    simp only [ssoStep] at he
    obtain ⟨p, hp, he⟩ := Option.bind_eq_some_iff.mp he
    cases hdoc : cachedDiscovery s.now s.discovery with
    | none =>
      rw [hdoc] at he
      obtain rfl := Option.some.inj he
      have hst : Grows s { s with pending := s.pending.eraseIdx i } := ⟨le_rfl, hsame.2, hsame.3⟩
      exact h.grows hst h.cache (fun _ => .inl)
        (fun p' hp' => .inl (List.mem_of_mem_eraseIdx hp')) fun _ => .inl
    | some doc =>
      rw [hdoc] at he
      obtain rfl := Option.some.inj he
      have hst : Grows s { s with
          pending := s.pending.set i { p with discovery := some doc } } := ⟨le_rfl, hsame.2, hsame.3⟩
      refine h.grows hst h.cache (fun _ => .inl) (fun p' hp' => ?_) fun _ => .inl
      rcases List.mem_or_eq_of_mem_set hp' with hp' | rfl
      · exact .inl hp'
      · obtain ⟨henabled, htime, ⟨l, hl, hfollows⟩, -⟩ := h.pending p (List.mem_of_getElem? hp)
        refine .inr ⟨henabled, htime, ⟨l, hl, ⟨hfollows.1, hfollows.2, hfollows.3, hfollows.4⟩⟩,
          fun doc' hd => ?_⟩
        obtain rfl := Option.some.inj hd
        obtain ⟨entry, hentry, heq, hfresh⟩ := mem_fetched_of_cached h hdoc
        exact ⟨entry, hentry, heq, htime.trans_lt hfresh⟩
  | finish i answer =>
    simp only [ssoStep] at he
    obtain ⟨p, hp, he⟩ := Option.bind_eq_some_iff.mp he
    obtain ⟨-, -, he⟩ := Option.bind_eq_some_iff.mp he
    cases hg : finishCallback lower str settings s.now p answer with
    | error e =>
      rw [hg] at he
      obtain rfl := Option.some.inj he
      have hst : Grows s { s with pending := s.pending.eraseIdx i } := ⟨le_rfl, hsame.2, hsame.3⟩
      exact h.grows hst h.cache (fun _ => .inl)
        (fun p' hp' => .inl (List.mem_of_mem_eraseIdx hp')) fun _ => .inl
    | ok g =>
      rw [hg] at he
      obtain rfl := Option.some.inj he
      have hst : Grows s { s with
          pending := s.pending.eraseIdx i, granted := g :: s.granted } := ⟨le_rfl, hsame.2, hsame.3⟩
      refine h.grows hst h.cache (fun _ => .inl)
        (fun p' hp' => .inl (List.mem_of_mem_eraseIdx hp')) fun g' hg' => ?_
      rcases List.mem_cons.mp hg' with rfl | hg'
      · exact .inr ((authentic_of_finish h hp hg).imp fun _ hl => hl.grows hst)
      · exact .inl hg'
  | logout => exact Option.some.inj he ▸ h

theorem ssoInv_reach {t₀ : ℚ}
    (h : SsoReach jwt s256 lower str settings { now := t₀ } s) : SsoInv lower str settings s := by
  refine h.invariant (I := SsoInv lower str settings) ?_ fun hinv hG he => ssoInv_step hinv hG he
  constructor <;> simp

/-! ## The sessions -/

/-- Who a session is for. -/
def IdClaims.actor (claims : IdClaims) : String :=
  (truthy claims.email).getD ((truthy claims.name).getD claims.sub)

theorem actor_makeSession (settings : SsoSettings) (now : ℚ) (claims : IdClaims) (role : Role) :
    (makeSession settings now claims role).toSession.actor = some (some claims.actor, role) := by
  have hrole : truthy (some role.value) = some role.value :=
    truthy_eq_some.mpr ⟨rfl, role.value_ne_empty⟩
  unfold Session.actor makeSession IdClaims.actor
  simp only [hrole]
  cases hemail : truthy claims.email with
  | some email => simp [Role.ofValue_value]
  | none =>
    cases hname : truthy claims.name with
    | some name =>
      have hne : truthy (some name) = some name :=
        truthy_eq_some.mpr ⟨rfl, (truthy_eq_some.mp hname).2⟩
      simp [hne, Role.ofValue_value]
    | none =>
      by_cases hsub : claims.sub = ""
      · have hnone : truthy (some "") = none := rfl
        simp [hsub, hnone, Role.ofValue_value]
      · have hne : truthy (some claims.sub) = some claims.sub := truthy_eq_some.mpr ⟨rfl, hsub⟩
        simp [hne, Role.ofValue_value]

/-- A login in flight is nobody. -/
theorem actor_login (l : Login) : l.payload.toSession.actor = none := rfl

theorem live_session {g : Granted} :
    live now (g.payload settings) = true ↔ now < ⌊g.time⌋ + settings.sessionTtl ∧
      (⌊g.time⌋ : ℚ) ≤ now := by
  simp [live, Granted.payload, makeSession]

theorem live_login {l : Login} : live now l.payload = true ↔ now < ⌊l.time⌋ + txTtl := by
  simp [live, Login.payload]

/-- **A session is authentic**: whenever a request gets an actor from a cookie that nobody forged,
the cookie is that of a session granted by the provider's answer to a callback. The callback named
the state of a login of this server, not five minutes old; the provider's token carried the nonce of
that login, for the code and the verifier of that login; the actor and the role are those of the
token, and the session has not expired. -/
theorem session_sound {t₀ : ℚ} (h : SsoReach jwt s256 lower str settings { now := t₀ } s)
    {req : Credentials}
    (hgenuine : ∀ token ∈ req.cookie, jwt.Genuine s.now (s.issued settings) token)
    {actor : Option String × Role}
    (hactor : sessionActor (readSession jwt s.now) settings.toAuthSettings req = some actor) :
    ∃ g ∈ s.granted, ∃ l, Authentic lower str settings s g l ∧
      req.cookie = some (jwt.sign (g.payload settings)) ∧
      s.now < ⌊g.time⌋ + settings.sessionTtl ∧ actor = (some g.claims.actor, g.role) := by
  have hinv := ssoInv_reach h
  unfold sessionActor at hactor
  split_ifs at hactor
  obtain ⟨sess, hsess, hactor⟩ := Option.bind_eq_some_iff.mp hactor
  obtain ⟨token, htoken, hsess⟩ := Option.bind_eq_some_iff.mp hsess
  obtain ⟨p, hp, rfl⟩ := Option.map_eq_some_iff.mp hsess
  have hcookie := (truthy_eq_some.mp htoken).1
  obtain ⟨hissued, hlive, rfl⟩ := (hgenuine token hcookie).accepted hp
  rcases hissued with ⟨l, -, rfl⟩ | ⟨g, hg, rfl⟩
  · rw [actor_login] at hactor
    cases hactor
  · obtain ⟨l, hl⟩ := hinv.granted g hg
    rw [Granted.payload, actor_makeSession] at hactor
    exact ⟨g, hg, l, hl, hcookie, (live_session.mp hlive).1, (Option.some.inj hactor).symm⟩

/-! ## What each token opens -/

theorem sessionActor_sign (hsso : settings.ssoEnabled = true) {p : Payload} (hne : jwt.sign p ≠ "")
    {req : Credentials} (hcookie : req.cookie = some (jwt.sign p)) :
    sessionActor (readSession jwt now) settings.toAuthSettings req =
      if live now p then p.toSession.actor else none := by
  have htoken : truthy (some (jwt.sign p)) = some (jwt.sign p) := truthy_eq_some.mpr ⟨rfl, hne⟩
  unfold sessionActor readSession
  rw [if_pos hsso, hcookie, htoken, Option.bind_some, jwt.check_sign]
  split_ifs <;> rfl

theorem readTx_sign {p tx : Payload} (hne : jwt.sign p ≠ "") :
    readTx jwt now (some (jwt.sign p)) = some tx ↔ live now p = true ∧ tx = p ∧ p ≠ {} := by
  have htoken : truthy (some (jwt.sign p)) = some (jwt.sign p) := truthy_eq_some.mpr ⟨rfl, hne⟩
  unfold readTx
  rw [htoken, Option.bind_some, jwt.check_sign, Option.filter_eq_some_iff]
  split_ifs with hlive
  · simp only [hlive, Option.some_inj, decide_eq_true_eq, true_and]
    constructor
    · rintro ⟨rfl, h⟩
      exact ⟨rfl, h⟩
    · rintro ⟨rfl, h⟩
      exact ⟨rfl, h⟩
  · simp [hlive]

/-- The provider's redirect back to the server answers a login. -/
def Query.Answers (query : Query) (l : Login) : Prop :=
  truthy query.error = none ∧ truthy query.state = some l.secrets.state ∧
    isAscii l.secrets.state = true ∧ (truthy query.code).isSome

/-- **What each token opens**, in any state of a run: that of a login authenticates nobody, and begins
a callback exactly for five minutes and with the state of this login; that of a session gives its
actor exactly until the session expires, whether or not its owner logged out, and begins no
callback. -/
theorem token_opens {t₀ : ℚ} (h : SsoReach jwt s256 lower str settings { now := t₀ } s)
    (hne : ∀ p, jwt.sign p ≠ "") :
    (∀ l ∈ s.logins,
      (∀ req : Credentials, req.cookie = some (jwt.sign l.payload) →
        sessionActor (readSession jwt s.now) settings.toAuthSettings req = none) ∧
      ∀ query, (∃ p, beginCallback jwt settings s.now (some (jwt.sign l.payload)) query = .ok p) ↔
        s.now < ⌊l.time⌋ + txTtl ∧ query.Answers l) ∧
    ∀ g ∈ s.granted,
      (∀ req : Credentials, req.cookie = some (jwt.sign (g.payload settings)) →
        sessionActor (readSession jwt s.now) settings.toAuthSettings req =
          if s.now < ⌊g.time⌋ + settings.sessionTtl then some (some g.claims.actor, g.role)
          else none) ∧
      ∀ query p,
        beginCallback jwt settings s.now (some (jwt.sign (g.payload settings))) query ≠ .ok p := by
  have hinv := ssoInv_reach h
  refine ⟨fun l hl => ⟨fun req hcookie => ?_, fun query => ?_⟩,
    fun g hg => ⟨fun req hcookie => ?_, fun query p hp => ?_⟩⟩
  · rw [sessionActor_sign (hinv.logins l hl).1 (hne _) hcookie, actor_login, ite_self]
  · constructor
    · rintro ⟨p, hp⟩
      obtain ⟨-, htx, hfits, -, -⟩ := beginCallback_eq_ok.mp hp
      obtain ⟨hlive, heq, -⟩ := (readTx_sign (hne _)).mp htx
      have hstate : l.secrets.state = p.state := by
        have hsame := hfits.same
        rw [heq] at hsame
        exact Option.some.inj hsame
      refine ⟨live_login.mp hlive, hfits.error, ?_, hstate ▸ hfits.ascii, ?_⟩
      · exact truthy_eq_some.mpr ⟨hstate ▸ hfits.state, hstate ▸ hfits.state_ne⟩
      · exact Option.isSome_of_mem hfits.code
    · rintro ⟨hexp, herror, hstate, hascii, hcode⟩
      obtain ⟨code, hcode⟩ := Option.isSome_iff_exists.mp hcode
      obtain ⟨hstate, hne'⟩ := truthy_eq_some.mp hstate
      refine ⟨{ time := s.now, tx := l.payload, state := l.secrets.state, code := code }, ?_⟩
      exact beginCallback_eq_ok.mpr ⟨(hinv.logins l hl).1,
        (readTx_sign (hne _)).mpr ⟨live_login.mpr hexp, rfl, by rintro ⟨⟩⟩,
        ⟨herror, hstate, hne', rfl, hascii, hcode⟩, rfl, rfl⟩
  · obtain ⟨l, hl⟩ := hinv.granted g hg
    have hpast : (⌊g.time⌋ : ℚ) ≤ s.now := (Int.floor_le _).trans hl.past
    rw [sessionActor_sign hl.enabled (hne _) hcookie, Granted.payload, actor_makeSession]
    refine if_congr ?_ rfl rfl
    rw [← Granted.payload, live_session]
    exact and_iff_left hpast
  · obtain ⟨-, htx, hfits, -, -⟩ := beginCallback_eq_ok.mp hp
    obtain ⟨-, heq, -⟩ := (readTx_sign (hne _)).mp htx
    have hsame := hfits.same
    rw [heq] at hsame
    cases hsame

/-! ## A login -/

namespace Demo

deriving instance Countable for Session
deriving instance Countable for Payload

/-- Some scheme. -/
noncomputable def text : Payload → String := exists_text_injective.choose

theorem text_ne (p : Payload) : text p ≠ "" := exists_text_injective.choose_spec.2 p

noncomputable def demoJwt : Jwt := .ofInjective live text exists_text_injective.choose_spec.1

def demoSettings : SsoSettings where
  adminToken := "t"
  oidcIssuer := "https://idp"
  oidcClientId := "llmops"
  oidcClientSecret := "s"
  operatorGroups := ["ops"]

def demoStr : Json → String
  | .str text => text
  | _ => ""

def doc : Discovery := ⟨"https://idp/authorize", "https://idp/token", "https://idp/keys"⟩

def origin : Origin := { scheme := "https", host := some "llmops" }

def secrets : Secrets := ⟨"state", "nonce", "verifier"⟩

def claims : IdClaims where
  sub := "7"
  email := some "alice@example.org"
  nonce := some "nonce"
  groups := .arr [.str "ops"]

/-- The login of an account in the group of the operators. -/
def login : Login where
  time := 0
  secrets := secrets
  next := "/"
  redirect := "https://llmops/api/auth/sso/callback"
  authorize := authorizeParams demoSettings "state" "nonce" "verifier"
    "https://llmops/api/auth/sso/callback"

def pending : Pending where
  time := 0
  tx := login.payload
  state := "state"
  code := "code"
  discovery := some doc

def granted : Granted := ⟨0, pending, claims, .operator⟩

def query : Query := { state := some "state", code := some "code" }

/-- The state after the login. -/
def final : SsoState where
  now := 0
  discovery := some (0, doc)
  fetched := [(0, doc)]
  logins := [login]
  granted := [granted]

theorem begin_ok : beginCallback demoJwt demoSettings 0 (some (demoJwt.sign login.payload)) query =
    .ok { pending with discovery := none } := by
  refine beginCallback_eq_ok.mpr ⟨rfl, (readTx_sign (text_ne _)).mpr ⟨by decide, rfl, ?_⟩, ?_, rfl, rfl⟩
  · rintro ⟨⟩
  · constructor <;> decide

theorem cached : cachedDiscovery 0 (some (0, doc)) = some doc := by
  norm_num [cachedDiscovery, discoveryTtl, Option.filter]

theorem reach : SsoReach demoJwt id id demoStr demoSettings { now := 0 } final := by
  have hfetched : SsoReach demoJwt id id demoStr demoSettings { now := 0 }
      { now := 0, discovery := some (0, doc), fetched := [(0, doc)] } :=
    Reach.refl.tail (e := .fetched doc) trivial rfl
  have hlogin : SsoReach demoJwt id id demoStr demoSettings { now := 0 }
      { now := 0, discovery := some (0, doc), fetched := [(0, doc)], logins := [login] } := by
    refine hfetched.tail (e := .login origin none secrets) trivial ?_
    simp only [ssoStep, cached]
    rfl
  have hbegin : SsoReach demoJwt id id demoStr demoSettings { now := 0 }
      { now := 0, discovery := some (0, doc), fetched := [(0, doc)], logins := [login],
        pending := [{ pending with discovery := none }] } := by
    refine hlogin.tail (e := .callback (some (demoJwt.sign login.payload)) query) ?_ ?_
    · rintro token ⟨⟩
      exact Signing.genuine_sign (.inl ⟨login, List.mem_singleton_self _, rfl⟩)
    · simp only [ssoStep, begin_ok]
      rfl
  have hlocate : SsoReach demoJwt id id demoStr demoSettings { now := 0 }
      { now := 0, discovery := some (0, doc), fetched := [(0, doc)], logins := [login],
        pending := [pending] } := by
    refine hbegin.tail (e := .locate 0) trivial ?_
    simp only [ssoStep, cached]
    rfl
  exact hlocate.tail (e := .finish 0 (some claims)) trivial rfl

/-- The request of a browser that has the session. -/
noncomputable def req : Credentials := { cookie := some (demoJwt.sign (granted.payload demoSettings)) }

theorem genuine : ∀ token ∈ req.cookie,
    demoJwt.Genuine final.now (final.issued demoSettings) token := by
  rintro token ⟨⟩
  exact Signing.genuine_sign (.inr ⟨granted, List.mem_singleton_self _, rfl⟩)

theorem req_actor : sessionActor (readSession demoJwt final.now) demoSettings.toAuthSettings req =
    some (some "alice@example.org", .operator) := by
  rw [sessionActor_sign rfl (text_ne _) rfl, if_pos (by decide), Granted.payload, actor_makeSession]
  rfl

theorem session_sound_alice : ∃ g ∈ final.granted, ∃ l, Authentic id demoStr demoSettings final g l ∧
    req.cookie = some (demoJwt.sign (g.payload demoSettings)) ∧
    final.now < ⌊g.time⌋ + demoSettings.sessionTtl ∧
    (some "alice@example.org", Role.operator) = (some g.claims.actor, g.role) :=
  session_sound reach genuine req_actor

/-- One that has the cookie of the login. -/
noncomputable def loginReq : Credentials := { cookie := some (demoJwt.sign login.payload) }

theorem token_opens_alice :
    (sessionActor (readSession demoJwt final.now) demoSettings.toAuthSettings loginReq = none ∧
      ∃ p, beginCallback demoJwt demoSettings final.now (some (demoJwt.sign login.payload)) query =
        .ok p) ∧
    sessionActor (readSession demoJwt final.now) demoSettings.toAuthSettings req =
      some (some "alice@example.org", .operator) ∧
    beginCallback demoJwt demoSettings final.now
      (some (demoJwt.sign (granted.payload demoSettings))) query ≠ .ok pending := by
  obtain ⟨hlogins, hsessions⟩ := token_opens reach text_ne
  obtain ⟨hnobody, hbegins⟩ := hlogins login (List.mem_singleton_self _)
  obtain ⟨hactor, hnot⟩ := hsessions granted (List.mem_singleton_self _)
  have hlives : final.now < ⌊granted.time⌋ + demoSettings.sessionTtl := by
    norm_num [final, granted, demoSettings]
  have hopen : final.now < ⌊login.time⌋ + txTtl := by norm_num [final, login, txTtl]
  refine ⟨⟨hnobody loginReq rfl, (hbegins query).mpr ⟨hopen, ?_⟩⟩, ?_, hnot query pending⟩
  · constructor <;> decide
  · rw [hactor req rfl, if_pos hlives]
    rfl

end Demo

/-! ## More groups -/

/-- The role of an account that no list names. -/
def defaultRole (lower : String → String) (settings : SsoSettings) : Option Role :=
  Role.ofValue (lower (strip settings.defaultRole))

/-- Some group makes a viewer of an account, and some an operator. -/
def SsoSettings.Viewer (settings : SsoSettings) (group : String) : Prop :=
  group ∈ settings.viewerGroups ∧ group ∉ settings.operatorGroups ∧ group ∉ settings.adminGroups

def SsoSettings.Operator (settings : SsoSettings) (group : String) : Prop :=
  group ∈ settings.operatorGroups ∧ group ∉ settings.adminGroups

theorem mapRole_single (hstr : ∀ text, str (.str text) = text) (group : String) :
    mapRole lower str settings none [.str group] =
      if group ∈ settings.adminGroups then some .admin
      else if group ∈ settings.operatorGroups then some .operator
      else if group ∈ settings.viewerGroups then some .viewer
      else defaultRole lower settings := by
  simp [mapRole, hstr, truthy, defaultRole]

theorem notMem_of_any {gs : List String} {ps : List String} {group : String}
    (h : ¬ gs.any (· ∈ ps) = true) (hgroup : group ∈ gs) : group ∉ ps := fun hmem =>
  h (List.any_eq_true.mpr ⟨group, hgroup, decide_eq_true hmem⟩)

theorem rank_le_admin (role : Option Role) : rank role ≤ rank (some .admin) := by
  rcases role with _ | role
  · exact Nat.zero_le _
  · cases role <;> decide

/-- **More groups, more of a role?** Exactly if the role of an account that no list names is not above
a role that some group gives: with a default above it, the first group that an account joins can
cost it rights. -/
theorem mapRole_mono_iff (hstr : ∀ text, str (.str text) = text) :
    (∀ email groups groups', groups ⊆ groups' →
      rank (mapRole lower str settings email groups) ≤
        rank (mapRole lower str settings email groups')) ↔
      (∀ group, settings.Viewer group → rank (defaultRole lower settings) ≤ rank (some .viewer)) ∧
        ∀ group, settings.Operator group →
          rank (defaultRole lower settings) ≤ rank (some .operator) := by
  have hempty : mapRole lower str settings none [] = defaultRole lower settings := by
    simp [mapRole, truthy, defaultRole]
  constructor
  · intro h
    constructor
    · rintro group ⟨hviewer, hoperator, hadmin⟩
      have hle := h none [] [.str group] (List.nil_subset _)
      rwa [hempty, mapRole_single hstr, if_neg hadmin, if_neg hoperator, if_pos hviewer] at hle
    · rintro group ⟨hoperator, hadmin⟩
      have hle := h none [] [.str group] (List.nil_subset _)
      rwa [hempty, mapRole_single hstr, if_neg hadmin, if_pos hoperator] at hle
  · rintro ⟨hviewer, hoperator⟩ email groups groups' hsub
    have hany {ps : List String} (hmem : (groups.map str).any (· ∈ ps) = true) :
        (groups'.map str).any (· ∈ ps) = true := by
      obtain ⟨group, hgroup, hp⟩ := List.any_eq_true.mp hmem
      exact List.any_eq_true.mpr ⟨group, List.map_subset str hsub hgroup, hp⟩
    -- the first list that the larger set of groups meets decides
    unfold mapRole
    simp only
    by_cases hemail : ((truthy email).any fun e => lower e ∈ settings.adminEmails.map lower) = true
    · simp only [hemail, if_true, le_refl]
    by_cases hadmin : (groups'.map str).any (· ∈ settings.adminGroups) = true
    · rw [if_neg hemail, if_neg hemail, if_pos hadmin]
      exact rank_le_admin _
    rw [if_neg hemail, if_neg hemail, if_neg hadmin, if_neg (mt hany hadmin)]
    by_cases hop : (groups'.map str).any (· ∈ settings.operatorGroups) = true
    · rw [if_pos hop]
      split_ifs
      · exact le_rfl
      · decide
      · obtain ⟨group, hgroup, hp⟩ := List.any_eq_true.mp hop
        exact hoperator group ⟨of_decide_eq_true hp, notMem_of_any hadmin hgroup⟩
    rw [if_neg hop, if_neg (mt hany hop)]
    by_cases hview : (groups'.map str).any (· ∈ settings.viewerGroups) = true
    · rw [if_pos hview]
      split_ifs
      · exact le_rfl
      · obtain ⟨group, hgroup, hp⟩ := List.any_eq_true.mp hview
        exact hviewer group
          ⟨of_decide_eq_true hp, notMem_of_any hop hgroup, notMem_of_any hadmin hgroup⟩
    rw [if_neg hview, if_neg (mt hany hview)]

theorem mapRole_mono_ops :
    (∀ email groups groups', groups ⊆ groups' →
      rank (mapRole id Demo.demoStr Demo.demoSettings email groups) ≤
        rank (mapRole id Demo.demoStr Demo.demoSettings email groups')) ↔
      (∀ group, Demo.demoSettings.Viewer group →
        rank (defaultRole id Demo.demoSettings) ≤ rank (some .viewer)) ∧
        ∀ group, Demo.demoSettings.Operator group →
          rank (defaultRole id Demo.demoSettings) ≤ rank (some .operator) :=
  mapRole_mono_iff fun _ => rfl

end Llmops.Auth
