import Rosette.Directory.Limits
import Rosette.Directory.Verified
import Rosette.Foundation.Alone

/-! # Who a search finds

A search reads a bucket of rows by a prefix and then the handle of each row it got. The prefix is
kept in a column of its own, next to the hash and the flag; one update writes all three, and an
erasure clears them.
-/
namespace Rosette.Directory
open Foundation Program List Option Function

variable {h : List Record} {userId : UserId} {hash : Text} {x : Record} {amb : Ambient} {env : Env}
  {s : AppState}

/-- An update of the user's choice that took effect. -/
def Chooses (userId : UserId) : Record → Prop
  | .did _ amb (.statement (.setSearchable id _ _)) _ => id = userId ∧ amb.fate ≠ .failed
  | _ => False

/-- The latest request of the user that set a choice turned search on and supplied the hash. -/
def OptedIn (h : List Record) (userId : UserId) (hash : Text) : Prop :=
  ∃ pre id amb r post authorization,
    h = pre ++ .did id amb (.statement (.setSearchable userId true (some hash))) r :: post ∧
      amb.fate ≠ .failed ∧ .arrived id (.setSearchable authorization true (some hash)) ∈ pre ∧
      Authenticated authorization (own id pre) userId ∧ ∀ x ∈ post, ¬ Chooses userId x

section OptedIn

theorem OptedIn.snoc (ho : OptedIn h userId hash) (hx : ¬ Chooses userId x) :
    OptedIn (h ++ [x]) userId hash := by
  obtain ⟨pre, id, amb, r, post, authorization, rfl, hfate, harrived, hauth, hpost⟩ := ho
  refine ⟨pre, id, amb, r, post ++ [x], authorization, by simp, hfate, harrived, hauth, ?_⟩
  intro y hy
  rcases mem_append.mp hy with hy | hy
  · exact hpost y hy
  · rwa [mem_singleton.mp hy]

theorem OptedIn.of_snoc (ho : OptedIn (h ++ [x]) userId hash) :
    Chooses userId x ∧
        (∃ id amb r, x = .did id amb (.statement (.setSearchable userId true (some hash))) r) ∨
      ¬ Chooses userId x ∧ OptedIn h userId hash := by
  obtain ⟨pre, id, amb, r, post, authorization, hsplit, hfate, harrived, hauth, hpost⟩ := ho
  induction post using reverseRecOn with
  | nil =>
    obtain ⟨-, hx⟩ := append_inj' hsplit rfl
    obtain rfl := head_eq_of_cons_eq hx
    exact .inl ⟨⟨rfl, hfate⟩, id, amb, r, rfl⟩
  | append_singleton post y _ =>
    rw [← cons_append, ← append_assoc] at hsplit
    obtain ⟨rfl, hx⟩ := append_inj' hsplit rfl
    obtain rfl := head_eq_of_cons_eq hx
    exact .inr ⟨hpost x (mem_append_right _ (mem_singleton_self _)), pre, id, amb, r,
      post, authorization, rfl, hfate, harrived, hauth,
      fun y hy => hpost y (mem_append_left _ hy)⟩

theorem OptedIn.chooses (ho : OptedIn h userId hash) : ∃ x ∈ h, Chooses userId x := by
  obtain ⟨pre, id, amb, r, post, authorization, rfl, hfate, -⟩ := ho
  exact ⟨_, mem_append_right _ mem_cons_self, rfl, hfate⟩

end OptedIn

def UserRow.choice (r : UserRow) : Option Text :=
  if r.searchable then some r.phoneSearchHash else none

section Tables
variable {db db' : Database} {s : Statement}

theorem Effect.choice (h : Effect amb db s db') {r' : UserRow} (hr : db'.users.row userId = some r')
    (hlive : r'.live = true) :
    (∃ r, db.users.row userId = some r ∧ r.live = true ∧ r'.choice = r.choice) ∨
      db.users.row userId = none ∧ r'.choice = none ∨
      ∃ searchable hash, s = .setSearchable userId searchable hash := by
  have hmodified : ∀ {i : UserId} {f : UserRow → UserRow},
      db'.users.row = update db.users.row i ((db.users.row i).map f) →
      (∀ r, (f r).live = true → r.live = true ∧ (f r).choice = r.choice) →
      ∃ r, db.users.row userId = some r ∧ r.live = true ∧ r'.choice = r.choice := by
    intro i f hrows hf
    rw [hrows] at hr
    rcases updated_cases hr with ⟨hold, -⟩ | ⟨r, hold, -, rfl⟩
    · exact ⟨r', hold, hlive, rfl⟩
    · exact ⟨r, hold, hf r hlive⟩
  cases h with
  | created =>
    rw [Users.insert_row, update_apply] at hr
    split_ifs at hr with hnew
    · cases hr
      exact .inr (.inl ⟨hnew ▸ db.users.unassigned _ le_rfl, rfl⟩)
    · exact .inl ⟨r', hr, hlive, rfl⟩
  | verified | claimed => exact .inl (hmodified rfl fun _ hl => ⟨hl, rfl⟩)
  | erased => exact .inl (hmodified rfl fun _ hl => by cases hl)
  | @searchable i searchable hash =>
    by_cases hi : userId = i
    · exact .inr (.inr ⟨searchable, hash, hi ▸ rfl⟩)
    · rw [Database.setSearchable, Users.modify_row, update_of_ne hi] at hr
      exact .inl ⟨r', hr, hlive, rfl⟩
  | _ => exact .inl ⟨r', hr, hlive, rfl⟩

def Database.Prefixed (db : Database) : Prop :=
  ∀ userId r, db.users.row userId = some r →
    r.phoneSearchHashPrefix = hashPrefix r.phoneSearchHash

theorem Database.Prefixed.modify (hp : db.Prefixed) {i : UserId} {f : UserRow → UserRow}
    (hrows : db'.users.row = update db.users.row i ((db.users.row i).map f))
    (hf : ∀ r, r.phoneSearchHashPrefix = hashPrefix r.phoneSearchHash →
      (f r).phoneSearchHashPrefix = hashPrefix (f r).phoneSearchHash) : db'.Prefixed := by
  intro userId r hr
  rw [hrows] at hr
  rcases updated_cases hr with ⟨hold, -⟩ | ⟨r, hold, -, rfl⟩
  · exact hp userId r hold
  · exact hf r (hp userId r hold)

theorem Effect.prefixed (h : Effect amb db s db') (hp : db.Prefixed) : db'.Prefixed := by
  cases h with
  | created =>
    intro userId r hr
    rw [Users.insert_row, update_apply] at hr
    split_ifs at hr
    · cases hr
      rfl
    · exact hp userId r hr
  | verified | claimed => exact hp.modify rfl fun _ h => h
  | erased | searchable => exact hp.modify rfl fun _ _ => rfl
  | _ => exact hp

end Tables

/-- The rows show what their users last asked for. -/
structure ChoicesTold (s : AppState) (h : List Record) : Prop where
  prefixed : s.db.Prefixed
  known : ∀ x ∈ h, ∀ userId, Chooses userId x → ∃ r, s.db.users.row userId = some r
  shown : ∀ userId r, s.db.users.row userId = some r → r.live = true →
    ∀ hash, r.choice = some hash ↔ OptedIn h userId hash

namespace ChoicesTold
variable {id : ℕ} {request : Request} {a : Action} {r : UserRow}

theorem initial : ChoicesTold .initial [] where
  prefixed := fun _ _ hr => by cases hr
  known := fun _ hx => by cases hx
  shown := fun _ _ hr => by cases hr

theorem optedIn_snoc_iff (hx : ¬ Chooses userId x) :
    OptedIn (h ++ [x]) userId hash ↔ OptedIn h userId hash := by
  constructor
  · intro ho
    rcases ho.of_snoc with ⟨hc, -⟩ | ⟨-, ho⟩
    · exact absurd hc hx
    · exact ho
  · exact fun ho => ho.snoc hx

theorem idle (hs : ChoicesTold s h) (hx : ∀ userId, ¬ Chooses userId x) :
    ChoicesTold s (h ++ [x]) where
  prefixed := hs.prefixed
  known y hy userId hc := by
    rcases mem_append.mp hy with hy | hy
    · exact hs.known y hy userId hc
    · exact absurd (mem_singleton.mp hy ▸ hc) (hx userId)
  shown userId r hr hlive hash := by
    rw [optedIn_snoc_iff (hx userId)]
    exact hs.shown userId r hr hlive hash

theorem shown_of_chooses (hground : InTurn env request (own id h) a)
    (harrived : .arrived id request ∈ h) (hc : Chooses userId (.did id amb a (exec env amb a s).1))
    (hr : (exec env amb a s).2.db.users.row userId = some r) (hash : Text) :
    r.choice = some hash ↔ OptedIn (h ++ [.did id amb a (exec env amb a s).1]) userId hash := by
  cases a with
  | statement st =>
    cases st with
    | setSearchable i searchable given =>
      obtain ⟨rfl, hfate⟩ := hc
      obtain ⟨authorization, phoneSearchHash, rfl, hauth, hsome, hgiven⟩ := hground
      have hdb : (exec env amb (.statement (.setSearchable i searchable given)) s).2.db =
          s.db.setSearchable i searchable given := Statement.exec_of_run hfate rfl
      rw [hdb, Database.setSearchable, Users.modify_row, update_self] at hr
      obtain ⟨r, -, rfl⟩ := map_eq_some_iff.mp hr
      cases given with
      | none =>
        obtain rfl : searchable = false := hsome.symm
        refine ⟨fun h => (by cases h), fun ho => ?_⟩
        rcases ho.of_snoc with ⟨-, j, amb', r', hx⟩ | ⟨hno, -⟩
        · cases hx
        · exact absurd ⟨rfl, hfate⟩ hno
      | some =>
        obtain rfl : searchable = true := hsome.symm
        constructor
        · intro h
          cases h
          exact ⟨_, id, amb, _, [], authorization, rfl, hfate, hgiven ▸ harrived, hauth, by simp⟩
        · intro ho
          rcases ho.of_snoc with ⟨-, j, amb', r', hx⟩ | ⟨hno, -⟩
          · cases hx
            rfl
          · exact absurd ⟨rfl, hfate⟩ hno
    | _ => exact hc.elim
  | _ => exact hc.elim

theorem shown_of_not_chooses (hs : ChoicesTold s h)
    (hc : ¬ Chooses userId (.did id amb a (exec env amb a s).1))
    (hr : (exec env amb a s).2.db.users.row userId = some r) (hlive : r.live = true) (hash : Text) :
    r.choice = some hash ↔ OptedIn (h ++ [.did id amb a (exec env amb a s).1]) userId hash := by
  rw [optedIn_snoc_iff hc]
  rcases exec_takes env amb a s with heq | ⟨st, rfl, htakes⟩
  · exact hs.shown userId r (heq ▸ hr) hlive hash
  · rcases htakes.effect.choice hr hlive with ⟨r₀, hr₀, hlive₀, heq⟩ | ⟨hnone, heq⟩ |
      ⟨searchable, given, rfl⟩
    · rw [heq]
      exact hs.shown userId r₀ hr₀ hlive₀ hash
    · rw [heq]
      refine ⟨fun h => (by cases h), fun ho => ?_⟩
      obtain ⟨x, hx, hchooses⟩ := ho.chooses
      obtain ⟨r₀, hr₀⟩ := hs.known x hx userId hchooses
      cases hnone.symm.trans hr₀
    · exact absurd ⟨rfl, htakes.1⟩ hc

theorem acted (hs : ChoicesTold s h) (hv : VerifiedTold s h) (harrived : .arrived id request ∈ h)
    (hground : InTurn env request (own id h) a) :
    ChoicesTold (exec env amb a s).2 (h ++ [.did id amb a (exec env amb a s).1]) where
  prefixed := by
    rcases exec_takes env amb a s with heq | ⟨st, -, htakes⟩
    · rw [heq]
      exact hs.prefixed
    · exact htakes.effect.prefixed hs.prefixed
  known x hx userId hc := by
    have hrow : ∃ r, s.db.users.row userId = some r := by
      rcases mem_append.mp hx with hx | hx
      · exact hs.known x hx userId hc
      · obtain rfl := mem_singleton.mp hx
        cases a with
        | statement st =>
          cases st with
          | setSearchable =>
            obtain ⟨rfl, -⟩ := hc
            obtain ⟨authorization, phoneSearchHash, -, hauth, -⟩ := hground
            obtain ⟨r, hr, -⟩ := hv.vouched_of_authenticated hauth
            exact ⟨r, hr⟩
          | _ => exact hc.elim
        | _ => exact hc.elim
    obtain ⟨r, hr⟩ := hrow
    obtain ⟨r', hr', -⟩ := SessionsTold.users_follow env amb a s userId r hr
    exact ⟨r', hr'⟩
  shown userId r hr hlive hash := by
    by_cases hc : Chooses userId (.did id amb a (exec env amb a s).1)
    · exact shown_of_chooses hground harrived hc hr hash
    · exact hs.shown_of_not_chooses hc hr hlive hash

theorem run {es : List ApiEvent} {w : World}
    (hrun : run (api env).step (Host.start .initial) es = some w) :
    ChoicesTold w.state w.history := by
  have hboth : VerifiedTold w.state w.history ∧ ChoicesTold w.state w.history :=
    Host.run_keeps (I := fun s h => VerifiedTold s h ∧ ChoicesTold s h) (handle_inTurn env)
      ⟨.initial, initial⟩
      ⟨fun _ _ _ _ hs => ⟨hs.1.idle (fun _ _ _ _ hx => by cases hx), hs.2.idle fun _ => not_false⟩,
        fun _ _ _ _ _ _ _ hs harrived hground =>
          ⟨hs.1.acted hground, hs.2.acted hs.1 harrived hground⟩,
        fun _ _ _ _ _ hs _ _ =>
          ⟨hs.1.idle (fun _ _ _ _ hx => by cases hx), hs.2.idle fun _ => not_false⟩,
        fun _ _ hs => ⟨⟨hs.1.sessions, hs.1.backups, hs.1.entries, hs.1.rows⟩,
          hs.2.prefixed, hs.2.known, hs.2.shown⟩⟩ hrun
  exact hboth.2

end ChoicesTold

/-! ## A search by itself -/

/-- What a search returns from the tables. -/
def Database.found (db : Database) (pre : Text) : List SearchResultEntry :=
  (db.bucket pre).filterMap fun entry =>
    (db.handleFor entry.userId).map fun handle => ⟨entry.userId, handle, entry.phoneHash⟩

def Answers (ambs : ℕ → Ambient) : Prop := ∀ n, (ambs n).fate = .answered

section Alone
variable {ambs : ℕ → Ambient} {st : Statement} {r : st.Result} {authorization : Option Text}
  {token : Text} {caller : UserId}

theorem statement_alone (hf : Answers ambs) (hr : st.run (ambs 0) s.db = .ok (r, s.db)) :
    (act (.statement st)).alone (exec env) ambs s = (.ok (.ok r), fun n => ambs (n + 1), s) := by
  have hexec : exec env (ambs 0) (.statement st) s = (.ok r, s) := by
    simp only [exec, Statement.exec, hf 0, hr]
  simp only [act, perform, alone, hexec]

theorem query_alone (hf : Answers ambs) (hr : st.run (ambs 0) s.db = .ok (r, s.db)) :
    (query st).alone (exec env) ambs s = (.ok r, fun n => ambs (n + 1), s) := by
  rw [query, alone_bind (statement_alone hf hr)]
  rfl

variable (env s) in
theorem handleFor_alone (hf : Answers ambs) (userId : UserId) :
    ∃ rest, Answers rest ∧
      (handleFor userId).alone (exec env) ambs s = (.ok (s.db.handleFor userId), rest, s) := by
  have hrow : (act (.statement (.handleRow userId))).alone (exec env) ambs s =
      (.ok (.ok (s.db.handleRow userId)), fun n => ambs (n + 1), s) := statement_alone hf rfl
  have hrest : Answers fun n => ambs (n + 1) := fun n => hf (n + 1)
  rw [handleFor, alone_bind hrow, Database.handleFor]
  cases s.db.handleRow userId with
  | none => exact ⟨_, hrest, rfl⟩
  | some p =>
    have hwidth : (act (.statement (.nicknameWidth p.1))).alone (exec env)
        (fun n => ambs (n + 1)) s = (.ok (.ok (s.db.widthOf p.1)), fun n => ambs (n + 2), s) :=
      statement_alone hrest rfl
    refine ⟨fun n => ambs (n + 2), fun n => hf (n + 2), ?_⟩
    exact (alone_bind hwidth).trans rfl

variable (env s) in
theorem searchResults_alone (hf : Answers ambs) (entries : List PhoneEntry) :
    ∃ rest, (searchResults entries).alone (exec env) ambs s =
      (.ok (entries.filterMap fun entry => (s.db.handleFor entry.userId).map fun handle =>
        ⟨entry.userId, handle, entry.phoneHash⟩), rest, s) := by
  induction entries generalizing ambs with
  | nil => exact ⟨ambs, rfl⟩
  | cons entry entries ih =>
    obtain ⟨mid, hmid, hhandle⟩ := handleFor_alone env s hf entry.userId
    obtain ⟨rest, hrest⟩ := ih hmid
    rw [searchResults, alone_bind hhandle, alone_bind hrest, filterMap_cons]
    cases s.db.handleFor entry.userId with
    | none | some => exact ⟨rest, rfl⟩

theorem admitLookup_alone (hon : env.searchEnabled = true) (hf : Answers ambs)
    (htoken : bearerToken authorization = some token)
    (hcaller : s.db.sessionUserId token (ambs 0).now = some caller)
    (hrate : (s.limiter.bump .caller caller (tierLimit (s.db.isVerified caller))
      (ambs 2).instant).1 = true) :
    (admitLookup env authorization).alone (exec env) ambs s =
      (.ok (), fun n => ambs (n + 3), { s with limiter := (s.limiter.bump .caller caller
        (tierLimit (s.db.isVerified caller)) (ambs 2).instant).2 }) := by
  have hsession : (query (.sessionUserId token)).alone (exec env) ambs s =
      (.ok (some caller), fun n => ambs (n + 1), s) :=
    query_alone hf (congrArg (fun user => Except.ok (user, s.db)) hcaller)
  have hauth : (authenticate authorization).alone (exec env) ambs s =
      (.ok caller, fun n => ambs (n + 1), s) := by
    rw [authenticate, htoken]
    exact (alone_bind hsession).trans rfl
  have htier : (query (.isVerified caller)).alone (exec env) (fun n => ambs (n + 1)) s =
      (.ok (s.db.isVerified caller), fun n => ambs (n + 2), s) :=
    query_alone (fun n => hf (n + 1)) rfl
  have hbump : (act (.bump .caller caller (tierLimit (s.db.isVerified caller)))).alone (exec env)
      (fun n => ambs (n + 2)) s =
        (.ok true, fun n => ambs (n + 3), { s with limiter := (s.limiter.bump .caller caller
          (tierLimit (s.db.isVerified caller)) (ambs 2).instant).2 }) := by
    simp only [act, perform, alone, exec, hrate]
  rw [admitLookup, hon]
  refine (alone_bind rfl).trans ?_
  rw [alone_bind hauth, alone_bind htier]
  exact (alone_bind hbump).trans rfl

theorem search_alone {pre : Text} (hon : env.searchEnabled = true) (hf : Answers ambs)
    (htoken : bearerToken authorization = some token)
    (hcaller : s.db.sessionUserId token (ambs 0).now = some caller)
    (hrate : (s.limiter.bump .caller caller (tierLimit (s.db.isVerified caller))
      (ambs 2).instant).1 = true)
    (hpre : byteLen pre = prefixLenHex) :
    ((search env authorization pre).alone (exec env) ambs s).1 =
    .ok (.results (s.db.found pre)) := by
  have hrequire : (require (byteLen pre == prefixLenHex)
      (.badRequest "prefix must be exactly PREFIX_LEN_HEX hex chars")) = pure () := by
    rw [hpre]
    rfl
  rw [search, alone_bind (admitLookup_alone hon hf htoken hcaller hrate), hrequire]
  generalize hs' : ({ s with limiter := _ } : AppState) = s'
  have hdb : s'.db = s.db := by rw [← hs']
  have hbucket : (act (.statement (.bucket pre))).alone (exec env) (fun n => ambs (n + 3)) s' =
      (.ok (.ok (s'.db.bucket pre)), fun n => ambs (n + 4), s') :=
    statement_alone (fun n => hf (n + 3)) rfl
  obtain ⟨rest, hresults⟩ := searchResults_alone env s' (fun n => hf (n + 4)) (s'.db.bucket pre)
  refine (congrArg Prod.fst (alone_bind (p := pure ()) rfl)).trans ?_
  rw [alone_bind hbucket]
  refine (congrArg Prod.fst (alone_bind hresults)).trans ?_
  rw [hdb]
  rfl

end Alone

variable {db : Database} {pre : Text}

theorem mem_bucket {entry : PhoneEntry} :
    entry ∈ db.bucket pre ↔ ∃ r, db.users.row entry.userId = some r ∧ r.live = true ∧
      r.choice = some entry.phoneHash ∧ r.phoneSearchHashPrefix = pre := by
  simp only [Database.bucket, mem_filterMap, map_eq_some_iff,
    filter_eq_some_iff, Bool.and_eq_true, beq_iff_eq]
  constructor
  · rintro ⟨userId, -, r, ⟨hr, ⟨hbucket, hon⟩, hlive⟩, rfl⟩
    exact ⟨r, hr, hlive, if_pos hon, hbucket⟩
  · rintro ⟨r, hr, hlive, hchoice, hbucket⟩
    obtain ⟨hon, hhash⟩ := ite_none_right_eq_some.mp hchoice
    exact ⟨entry.userId, Users.mem_ids hr, r, ⟨hr, ⟨hbucket, hon⟩, hlive⟩,
      congrArg (PhoneEntry.mk · entry.userId) (some.inj hhash)⟩

theorem mem_found {handle : Text} :
    ⟨userId, handle, hash⟩ ∈ db.found pre ↔ (∃ r, db.users.row userId = some r ∧ r.live = true ∧
      r.choice = some hash ∧ r.phoneSearchHashPrefix = pre) ∧
      db.handleFor userId = some handle := by
  simp only [Database.found, mem_filterMap, map_eq_some_iff]
  constructor
  · rintro ⟨entry, hentry, handle, hhandle, ⟨⟩⟩
    exact ⟨mem_bucket.mp hentry, hhandle⟩
  · rintro ⟨hrow, hhandle⟩
    exact ⟨⟨hash, userId⟩, mem_bucket.mpr hrow, handle, hhandle, rfl⟩

theorem nodup_found (db : Database) (pre : Text) :
    ((db.found pre).map SearchResultEntry.userId).Nodup := by
  have hids : db.users.ids.Nodup := nodup_range
  rw [Nodup, pairwise_map, Database.found, Database.bucket, pairwise_filterMap,
    pairwise_filterMap]
  refine hids.imp fun hne entry hentry entry' hentry' e he e' he' => ?_
  obtain ⟨r, -, rfl⟩ := map_eq_some_iff.mp hentry
  obtain ⟨r', -, rfl⟩ := map_eq_some_iff.mp hentry'
  obtain ⟨handle, -, rfl⟩ := map_eq_some_iff.mp he
  obtain ⟨handle', -, rfl⟩ := map_eq_some_iff.mp he'
  exact hne

/-- After every run of requests, a search by a known caller within its rate, while the database
answers, returns once each live user who has a handle and whose latest choice was a hash that
starts with the prefix, with that hash and the current handle, and nobody else. -/
theorem search_finds_opted_in (env : Env) {es : List ApiEvent} {w : World}
    (hrun : run (api env).step (Host.start .initial) es = some w) (hon : env.searchEnabled = true)
    {id : ℕ} (hid : begun id w.history = false) {ambs : ℕ → Ambient} (hf : Answers ambs)
    {authorization : Option Text} {token pre : Text} {caller : UserId}
    (htoken : bearerToken authorization = some token)
    (hcaller : w.state.db.sessionUserId token (ambs 0).now = some caller)
    (hrate : (w.state.limiter.bump .caller caller (tierLimit (w.state.db.isVerified caller))
      (ambs 2).instant).1 = true)
    (hlen : pre.length = prefixLenHex) (hpre : byteLen pre = prefixLenHex) :
    ∃ n v results, run (api env).step w (Host.serving id (.search authorization pre) ambs n) =
        some v ∧
      .answered id (.ok (.results results)) ∈ v.history ∧
      (results.map SearchResultEntry.userId).Nodup ∧
      ∀ userId handle hash, ⟨userId, handle, hash⟩ ∈ results ↔
        (∃ r, w.state.db.users.row userId = some r ∧ r.live = true) ∧
        w.state.db.handleFor userId = some handle ∧ OptedIn w.history userId hash ∧
        pre <+: hash := by
  obtain ⟨n, v, hserved, -, hanswer⟩ :=
    Host.run_serving hid (.search authorization pre) ambs
  have hreply := search_alone hon hf htoken hcaller hrate hpre
  refine ⟨n, v, w.state.db.found pre, hserved, hreply ▸ hanswer, nodup_found _ _, ?_⟩
  have htold := ChoicesTold.run hrun
  have hstarts : ∀ hash : Text, hashPrefix hash = pre ↔ pre <+: hash := by
    intro hash
    rw [prefix_iff_eq_take, hlen, eq_comm]
    rfl
  intro userId handle hash
  rw [mem_found]
  constructor
  · rintro ⟨⟨r, hr, hlive, hchoice, hbucket⟩, hhandle⟩
    have hhash : r.phoneSearchHash = hash :=
      some.inj (ite_none_right_eq_some.mp hchoice).2
    refine ⟨⟨r, hr, hlive⟩, hhandle, (htold.shown userId r hr hlive hash).mp hchoice, ?_⟩
    rw [← hstarts, ← hhash, ← htold.prefixed userId r hr, hbucket]
  · rintro ⟨⟨r, hr, hlive⟩, hhandle, hopted, hstart⟩
    have hchoice := (htold.shown userId r hr hlive hash).mpr hopted
    have hhash : r.phoneSearchHash = hash :=
      some.inj (ite_none_right_eq_some.mp hchoice).2
    refine ⟨⟨r, hr, hlive, hchoice, ?_⟩, hhandle⟩
    rw [htold.prefixed userId r hr, hhash]
    exact (hstarts hash).mpr hstart

section Sample

def sampleHash : Text := replicate 64 'a'

/-- A verified user takes a handle and opts in. -/
def optedInRun : List ApiEvent :=
  verifiedRun ++ serve 1 (.claimUsername sampleBearer ['a', 'n', 'n']) 2 (calm 1 []) ++
    [.answer 1] ++ serve 2 (.setSearchable sampleBearer true (some sampleHash)) 2 (calm 2 []) ++
    [.answer 2]

theorem search_finds_opted_in_user : ∃ w n v results handle,
    run (api sampleEnv).step (Host.start .initial) optedInRun = some w ∧
      run (api sampleEnv).step w (Host.serving 3 (.search sampleBearer (replicate 5 'a'))
        (fun _ => calm 3 []) n) = some v ∧
      .answered 3 (.ok (.results results)) ∈ v.history ∧ ⟨1, handle, sampleHash⟩ ∈ results := by
  obtain ⟨w, hrun, hid, hcaller, hrate, ⟨handle, hhandle⟩, r, hr, hlive⟩ :
      ∃ w, run (api sampleEnv).step (Host.start .initial) optedInRun = some w ∧
        begun 3 w.history = false ∧ w.state.db.sessionUserId ['s'] 3 = some 1 ∧
        (w.state.limiter.bump .caller 1 (tierLimit (w.state.db.isVerified 1)) 0).1 = true ∧
        (∃ handle, w.state.db.handleFor 1 = some handle) ∧
        ∃ r, w.state.db.users.row 1 = some r ∧ r.live = true ∧ r.choice = some sampleHash := by
    decide +kernel
  have hf : Answers fun _ => calm 3 [] := fun _ => rfl
  have htoken : bearerToken sampleBearer = some ['s'] := by decide
  have hlen : (replicate 5 'a').length = prefixLenHex := rfl
  obtain ⟨n, v, results, hserved, hanswer, -, hfound⟩ :=
    search_finds_opted_in sampleEnv hrun rfl hid hf htoken hcaller hrate hlen (by decide)
  refine ⟨w, n, v, results, handle, hrun, hserved, hanswer, (hfound 1 handle sampleHash).mpr ?_⟩
  exact ⟨⟨r, hr, hlive.1⟩, hhandle,
    ((ChoicesTold.run hrun).shown 1 r hr hlive.1 sampleHash).mp hlive.2, by decide⟩

end Sample
end Rosette.Directory
