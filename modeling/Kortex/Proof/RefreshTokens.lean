import Kortex.Library.Run
import Kortex.Model.RefreshTokens

/-
This file proves when a refresh token is single-use.
-/

namespace Kortex.AuthService.Rotation

variable (settings : Settings) (token : JwtPayload)

/-- The call has passed the check of the denylist, and the revocation is not written yet. -/
def Phase.spending : Phase → Prop
  | accepted | found _ | revoking _ _ => True
  | _ => False

/-- The call has passed the check of the denylist, and has not failed since. -/
def Phase.passed : Phase → Prop
  | accepted | found _ | revoking _ _ | burned _ | returned => True
  | _ => False

/-- One call returns a token pair, and none that started after a sign-out. -/
structure SingleUse (s : State) : Prop where
  once : s.issued.length ≤ 1
  after : ∀ issued ∈ s.issued, issued.id ∉ s.late

/-- A call passes the check before the first revocation is written, and while no other call stands
between its check and its revocation. -/
def Clear (s : State) : Event → Prop
  | .checkDenylist id => s.phase id = .presented → s.isRevoked token = false →
      s.revocations = [] ∧ ∀ other, ¬ (s.phase other).spending
  | _ => True

/-- The call has passed the check, and the revocation is written. -/
def Phase.spent : Phase → Prop
  | burned _ | returned => True
  | _ => False

theorem passed_iff (phase : Phase) : phase.passed ↔ phase.spending ∨ phase.spent := by
  cases phase <;> simp [Phase.passed, Phase.spending, Phase.spent]

/-- At most one call has passed the check, and a key of the denylist lasts until the last second of
the token. -/
structure Sound (s : State) : Prop extends SingleUse s where
  single : ∀ i j, (s.phase i).passed → (s.phase j).passed → i = j
  returned : ∀ issued ∈ s.issued, s.phase issued.id = .returned
  written : ∀ i, (s.phase i).spent → s.revocations ≠ []
  refused : ∀ id ∈ s.late, s.phase id = .refused ∨ s.phase id = .presented ∧ s.revocations ≠ []
  signed : s.signedOut = true → s.revocations ≠ [] ∨ token.decode s.now .refresh = none
  lasting : s.revocations ≠ [] → ∃ expiry : Int,
    s.denylist (TokenDenylist.key token.jti.str) = some expiry ∧ token.expiry < expiry + 1000000
  pending : ∀ i ttl, ((∃ user, s.phase i = .revoking user ttl) ∨ s.phase i = .signingOut ttl) →
    token.expiry < s.now + max 1 ttl * 1000000 + 1000000

theorem phase_setPhase (s : State) (id i : Nat) (phase : Phase) :
    (s.setPhase id phase).phase i = if i = id then phase else s.phase i :=
  Function.update_apply s.phase id phase i

/-- The time to live is cut to seconds, so the key lasts until the last second of the token. -/
theorem lt_revocationTtl (now : Int) :
    token.expiry < now + max 1 (revocationTtl token now) * 1000000 + 1000000 := by
  unfold revocationTtl
  rcases Int.le_total now token.expiry with early | late
  · rw [Int.tdiv_eq_ediv_of_nonneg (by omega)]
    omega
  · omega

variable {token}

theorem decode_eq_none (now later : Int) (order : now ≤ later)
    (expired : token.decode now .refresh = none) : token.decode later .refresh = none := by
  unfold JwtPayload.decode at expired ⊢
  split at expired
  · exact if_pos (by omega)
  · split at expired
    · exact absurd expired (Option.some_ne_none token)
    · rename_i wrong
      rw [if_neg wrong, ite_self]

theorem not_late (s : State) (sound : Sound token s) (id : Nat) (passed : (s.phase id).passed) :
    id ∉ s.late := by
  intro late
  rcases sound.refused id late with refused | ⟨presented, _⟩
  · rw [refused] at passed
    exact passed
  · rw [presented] at passed
    exact passed

/-- The step of one call keeps the invariant when no other call has passed the check. -/
theorem sound_setPhase (s : State) (sound : Sound token s) (id : Nat) (phase : Phase)
    (unreturned : s.phase id ≠ .returned) (single : phase.passed → ∀ j, (s.phase j).passed → j = id)
    (written : phase.spent → s.revocations ≠ [])
    (refused : id ∈ s.late → phase = .refused ∨ phase = .presented ∧ s.revocations ≠ [])
    (pending : ∀ ttl, ((∃ user, phase = .revoking user ttl) ∨ phase = .signingOut ttl) →
      token.expiry < s.now + max 1 ttl * 1000000 + 1000000) : Sound token (s.setPhase id phase) where
  once := sound.once
  after := sound.after
  single := by
    intro i j
    rw [phase_setPhase, phase_setPhase]
    split <;> split <;> intro first second
    · rename_i same same'
      rw [same, same']
    · rename_i same _
      rw [same, single first j second]
    · rename_i _ same
      rw [same, single second i first]
    · exact sound.single i j first second
  returned := by
    intro issued inside
    have done := sound.returned issued inside
    rw [phase_setPhase, if_neg]
    · exact done
    · rintro rfl
      exact unreturned done
  written := by
    intro i
    rw [phase_setPhase]
    split
    · exact written
    · exact sound.written i
  refused := by
    intro other late
    rw [phase_setPhase]
    split
    · rename_i same
      exact refused (same ▸ late)
    · exact sound.refused other late
  signed := sound.signed
  lasting := sound.lasting
  pending := by
    intro i ttl
    rw [phase_setPhase]
    split
    · exact pending ttl
    · exact sound.pending i ttl

/-- A call that has passed the check moves on. -/
theorem sound_passed (s : State) (sound : Sound token s) (id : Nat) (phase : Phase)
    (unreturned : s.phase id ≠ .returned) (passed : (s.phase id).passed)
    (written : phase.spent → s.revocations ≠ [])
    (pending : ∀ ttl, ((∃ user, phase = .revoking user ttl) ∨ phase = .signingOut ttl) →
      token.expiry < s.now + max 1 ttl * 1000000 + 1000000) : Sound token (s.setPhase id phase) := by
  apply sound_setPhase s sound id phase unreturned _ written _ pending
  · intro _ j other
    exact sound.single j id other passed
  · intro late
    exact absurd late (not_late s sound id passed)

/-- A call moves on without passing the check. -/
theorem sound_quiet (s : State) (sound : Sound token s) (id : Nat) (phase : Phase)
    (unreturned : s.phase id ≠ .returned) (outside : ¬ phase.passed)
    (refused : id ∈ s.late → phase = .refused ∨ phase = .presented ∧ s.revocations ≠ [])
    (pending : ∀ ttl, ((∃ user, phase = .revoking user ttl) ∨ phase = .signingOut ttl) →
      token.expiry < s.now + max 1 ttl * 1000000 + 1000000) : Sound token (s.setPhase id phase) := by
  apply sound_setPhase s sound id phase unreturned _ _ refused pending
  · intro passed
    exact absurd passed outside
  · intro spent
    exact absurd ((passed_iff phase).mpr (Or.inr spent)) outside

/-- A call that started after a sign-out is refused, or waits for its check. -/
theorem not_late_of_phase (s : State) (sound : Sound token s) (id : Nat)
    (other : s.phase id ≠ .refused ∧ s.phase id ≠ .presented) : id ∉ s.late := by
  intro late
  rcases sound.refused id late with refused | ⟨presented, _⟩
  · exact other.1 refused
  · exact other.2 presented

theorem key_burn (s : State) (id : Nat) (ttl : Int) (named : token.jti.str ≠ []) :
    (s.burn token id ttl).denylist (TokenDenylist.key token.jti.str) =
      some (s.now + max 1 ttl * 1000000) := by
  simp only [State.burn, TokenDenylist.revoke, if_neg named, Function.update_self]

theorem str_ne_nil (u : Uuid) : u.str ≠ [] := by
  intro empty
  have dash : '-' ∈ u.str := by
    simp [Uuid.str, Str.join, List.intercalate]
  rw [empty] at dash
  exact List.not_mem_nil dash

theorem sound_burn (s : State) (sound : Sound token s) (id : Nat) (ttl : Int)
    (bound : token.expiry < s.now + max 1 ttl * 1000000 + 1000000) : Sound token (s.burn token id ttl) :=
  { sound with
    written := fun _ _ => by simp [State.burn]
    refused := fun other late => (sound.refused other late).imp_right fun waiting =>
      ⟨waiting.1, by simp [State.burn]⟩
    signed := fun _ => Or.inl (by simp [State.burn])
    lasting := fun _ => ⟨_, key_burn s id ttl (str_ne_nil token.jti), bound⟩ }

theorem sound_signOut (s : State) (sound : Sound token s)
    (signed : s.revocations ≠ [] ∨ token.decode s.now .refresh = none) :
    Sound token { s with signedOut := true } :=
  { sound with signed := fun _ => signed }

/-- The only call that has passed the check returns its pair. -/
theorem sound_issue (s : State) (sound : Sound token s) (id : Nat) (user : User) (result : LoginResult)
    (burned : s.phase id = .burned user) :
    Sound token { s.setPhase id .returned with issued := s.issued ++ [⟨id, result⟩] } := by
  have passed : (s.phase id).passed := by rw [burned]; trivial
  have none : s.issued = [] := by
    apply List.eq_nil_iff_forall_not_mem.mpr
    intro issued inside
    have done := sound.returned issued inside
    have same := sound.single issued.id id (by rw [done]; trivial) passed
    rw [same, burned] at done
    exact Phase.noConfusion done
  have moved := sound_passed s sound id .returned (by simp [burned]) passed
    (fun _ => sound.written id (by rw [burned]; trivial)) (by simp)
  have first : s.issued ++ [⟨id, result⟩] = [⟨id, result⟩] := by rw [none]; rfl
  rw [first]
  exact
    { moved with
      once := le_rfl
      after := by
        intro issued inside
        rw [List.mem_singleton.mp inside]
        exact not_late s sound id passed
      returned := by
        intro issued inside
        rw [List.mem_singleton.mp inside]
        exact (phase_setPhase s id id _).trans (if_pos rfl) }

theorem sound_late (s : State) (sound : Sound token s) (id : Nat) (waits : s.phase id = .idle)
    (phase : Phase) (outside : ¬ phase.passed)
    (refused : phase = .refused ∨ phase = .presented ∧ s.revocations ≠ []) :
    Sound token (({ s with late := s.late ++ [id] } : State).setPhase id phase) := by
  have moved := sound_quiet s sound id phase (by simp [waits]) outside (fun _ => refused) (by
    intro ttl waiting
    rcases refused with rfl | ⟨rfl, _⟩ <;> simp at waiting)
  exact
    { moved with
      after := by
        intro issued inside late
        rcases List.mem_append.mp late with earlier | last
        · exact sound.after issued inside earlier
        · have done := sound.returned issued inside
          rw [List.mem_singleton.mp last, waits] at done
          exact Phase.noConfusion done
      refused := by
        intro other late
        rcases List.mem_append.mp late with earlier | last
        · exact moved.refused other earlier
        · rw [List.mem_singleton.mp last]
          show (s.setPhase id phase).phase id = _ ∨ (s.setPhase id phase).phase id = _ ∧ _
          rw [phase_setPhase, if_pos rfl]
          exact refused }

/-- A call that presents the token after a sign-out waits for a check that will refuse it. -/
theorem sound_refresh (s : State) (sound : Sound token s) (id : Nat) (idle : s.phase id = .idle) :
    Sound token (step settings token s (.refresh id)) := by
  have absent := not_late_of_phase s sound id (by simp [idle])
  simp only [step, idle]
  by_cases signedOut : s.signedOut = true
  · rw [if_pos signedOut]
    cases read : token.decode s.now .refresh with
    | none =>
        simp only
        exact sound_late s sound id idle .refused (fun h => h) (Or.inl rfl)
    | some payload =>
        have written := (sound.signed signedOut).resolve_right (by simp [read])
        simp only
        exact sound_late s sound id idle .presented (fun h => h) (Or.inr ⟨rfl, written⟩)
  · rw [if_neg signedOut]
    split
    · exact sound_quiet s sound id .refused (by simp [idle]) (fun h => h) (fun _ => Or.inl rfl)
        (by simp)
    · exact sound_quiet s sound id .presented (by simp [idle]) (fun h => h)
        (fun late => absurd late absent) (by simp)

theorem sound_check (s : State) (sound : Sound token s) (id : Nat)
    (presented : s.phase id = .presented) (clear : Clear token s (.checkDenylist id)) :
    Sound token (s.setPhase id (if s.isRevoked token then .refused else .accepted)) := by
  split
  · exact sound_quiet s sound id .refused (by simp [presented]) (fun h => h) (fun _ => Or.inl rfl)
      (by simp)
  · rename_i accepted
    obtain ⟨unwritten, nobody⟩ := clear presented (Bool.eq_false_of_not_eq_true accepted)
    apply sound_setPhase s sound id .accepted (by simp [presented]) _ False.elim
      _ (by simp)
    · intro _ j passed
      rcases (passed_iff _).mp passed with spending | spent
      · exact absurd spending (nobody j)
      · exact absurd unwritten (sound.written j spent)
    · intro late
      rcases sound.refused id late with refused | ⟨_, written⟩
      · rw [presented] at refused
        exact Phase.noConfusion refused
      · exact absurd unwritten written

theorem sound_revokePayload (s : State) (sound : Sound token s) (id : Nat) :
    Sound token (step settings token s (.revokePayload id)) := by
  have bound (ttl : Int) (same : revocationTtl token s.now = ttl) :
      token.expiry < s.now + max 1 ttl * 1000000 + 1000000 := same ▸ lt_revocationTtl token s.now
  simp only [step]
  split
  · rename_i user found
    exact sound_passed s sound id (.revoking user (revocationTtl token s.now)) (by simp [found])
      (by rw [found]; trivial) False.elim
      (fun ttl waiting => bound ttl (by simpa using waiting))
  · rename_i leaving
    exact sound_quiet s sound id (.signingOut (revocationTtl token s.now)) (by simp [leaving])
      (fun h => h) (fun late => absurd late (not_late_of_phase s sound id (by simp [leaving])))
      (fun ttl waiting => bound ttl (by simpa using waiting))
  · exact sound

theorem sound_revoke (s : State) (sound : Sound token s) (id : Nat) :
    Sound token (step settings token s (.revoke id)) := by
  simp only [step]
  split
  · rename_i user ttl revoking
    have burned := sound_burn s sound id ttl (sound.pending id ttl (Or.inl ⟨user, revoking⟩))
    exact sound_passed _ burned id (.burned user) (by simp [State.burn, revoking])
      (by simp [State.burn, revoking, Phase.passed]) (fun _ => by simp [State.burn]) (by simp)
  · rename_i ttl signingOut
    have burned := sound_burn s sound id ttl (sound.pending id ttl (Or.inr signingOut))
    have absent := not_late_of_phase s sound id (by simp [signingOut])
    exact sound_signOut _ (sound_quiet _ burned id .left (by simp [State.burn, signingOut])
      (fun h => h) (fun late => absurd late absent) (by simp))
      (Or.inl (by simp [State.burn, State.setPhase]))
  · exact sound

theorem sound_step (s : State) (e : Event) (sound : Sound token s) (clear : Clear token s e) :
    Sound token (step settings token s e) := by
  cases e with
  | pass duration =>
      exact
        { sound with
          signed := fun signedOut => (sound.signed signedOut).imp_right
            (decode_eq_none s.now (s.now + duration) (by omega))
          pending := fun i ttl waiting => by
            have bound := sound.pending i ttl waiting
            show token.expiry < s.now + duration + max 1 ttl * 1000000 + 1000000
            omega }
  | accounts store => exact { sound with }
  | refresh id =>
      cases phase : s.phase id with
      | idle => exact sound_refresh settings s sound id phase
      | _ =>
          simp only [step, phase]
          exact sound
  | checkDenylist id =>
      simp only [step]
      split
      · rename_i presented
        exact sound_check s sound id presented clear
      · exact sound
  | loadUser id =>
      simp only [step]
      split
      · rename_i accepted
        have passed : (s.phase id).passed := by rw [accepted]; trivial
        split
        · exact sound_passed s sound id .refused (by simp [accepted]) passed
            False.elim (by simp)
        · rename_i user _
          exact sound_passed s sound id (.found user) (by simp [accepted]) passed
            False.elim (by simp)
      · exact sound
  | revokePayload id => exact sound_revokePayload settings s sound id
  | revoke id => exact sound_revoke settings s sound id
  | issueTokens id accessJti refreshJti =>
      simp only [step]
      split
      · rename_i user burned
        exact sound_issue s sound id user _ burned
      · exact sound
  | revokeRefresh id =>
      simp only [step]
      split
      · rename_i idle
        have absent := not_late_of_phase s sound id (by simp [idle])
        split
        · rename_i expired
          exact sound_signOut _ (sound_quiet s sound id .left (by simp [idle]) (fun h => h)
            (fun late => absurd late absent) (by simp)) (Or.inr expired)
        · exact sound_quiet s sound id .leaving (by simp [idle]) (fun h => h)
            (fun late => absurd late absent) (by simp)
      · exact sound

theorem sound_start (now : Instant) (store : AccountStore) : Sound token (start now store) where
  once := Nat.zero_le 1
  after := by simp [start]
  single := fun _ _ passed => False.elim passed
  returned := by simp [start]
  written := fun _ spent => False.elim spent
  refused := by simp [start]
  signed := by simp [start]
  lasting := by simp [start]
  pending := by simp [start]

/-- A check that overtakes another call, or a revocation, does so beside a call between its check and
its revocation, or in the last second of the token. -/
theorem late_of_not_clear (s : State) (sound : Sound token s) (id : Nat)
    (overtakes : ¬ Clear token s (.checkDenylist id)) :
    (∃ other, (s.phase other).spending) ∨ token.expiry < s.now + 1000000 := by
  simp only [Clear, Classical.not_imp, not_and_or, not_forall, not_not] at overtakes
  obtain ⟨_, absent, written | ⟨other, spending⟩⟩ := overtakes
  · obtain ⟨expiry, found, lasting⟩ := sound.lasting written
    simp only [State.isRevoked, TokenDenylist.isRevoked, found, Option.any_some, Bool.and_eq_false_iff,
      bne_eq_false_iff_eq, decide_eq_false_iff_not, str_ne_nil, false_or] at absent
    have expired : expiry ≤ s.now := Int.not_lt.mp absent
    right
    omega
  · exact Or.inl ⟨other, spending⟩

/-- A refresh token is single-use, and of no use after a sign-out, in every run where each call passes
the check before the first revocation is written, or finds the revocation, and where no two calls
stand between their checks and their revocations. -/
theorem singleUse_run (now : Instant) (store : AccountStore) (events : List Event)
    (clear : Run.Each (step settings token) (Clear token) (start now store) events) :
    Run.Always (step settings token) SingleUse (start now store) events :=
  (Run.always_of_each (fun s e sound clear => sound_step settings s e sound clear)
    (sound_start now store) clear).imp fun _ sound => sound.toSingleUse

/-- One user has an account. -/
def oneUser : AccountStore where
  users := Table.empty.insert ⟨1, 1, "ada@kortex.dev", [], false, none⟩ (Table.fresh_empty _)

/-- This token expires at the second 1000. -/
def shortToken : JwtPayload := ⟨1, 0, 1000, .refresh⟩

/-- These are the steps of one call of `refresh`. -/
def refreshCall (id : Nat) : List Event :=
  [.refresh id, .checkDenylist id, .loadUser id, .revokePayload id, .revoke id, .issueTokens id 1 2]

/-- These are the steps of one call of `revoke_refresh`. -/
def revokeCall (id : Nat) : List Event := [.revokeRefresh id, .revokePayload id, .revoke id]

/-- The token is spent, and presented once more. -/
def spentTwice : List Event := refreshCall 0 ++ [.refresh 1, .checkDenylist 1]

theorem singleUse_run_spentTwice :
    Run.Each (step {} shortToken) (Clear shortToken) (start 0 oneUser) spentTwice ∧
      Run.Always (step {} shortToken) SingleUse (start 0 oneUser) spentTwice := by
  have clear : Run.Each (step {} shortToken) (Clear shortToken) (start 0 oneUser) spentTwice := by
    refine ⟨trivial, ?_, trivial, trivial, trivial, trivial, trivial, ?_, trivial⟩
    · intro _ _
      refine ⟨rfl, fun other => ?_⟩
      match other with
      | 0 => exact fun h => h
      | _ + 1 => exact fun h => h
    · intro _ absent
      exact absurd absent (by decide)
  exact ⟨clear, singleUse_run {} 0 oneUser spentTwice clear⟩

/-- Two calls pass the check before either revokes the token, and both return a pair. -/
def raced : List Event :=
  [.refresh 0, .refresh 1, .checkDenylist 0, .checkDenylist 1, .loadUser 0, .loadUser 1,
    .revokePayload 0, .revokePayload 1, .revoke 0, .revoke 1, .issueTokens 0 1 2, .issueTokens 1 3 4]

/-- Two calls in flight at once both spend the token; with 3.7 seconds left, a revocation lasts 3
seconds, after which the token is accepted again. -/
theorem raced_returns_two_pairs :
    ((Run.final (step {} shortToken) (start 0 oneUser) raced).issued.map Issued.id = [0, 1]) ∧
    ((Run.final (step {} shortToken) (start 996300000 oneUser)
      (refreshCall 0 ++ [.pass 3000000] ++ refreshCall 1)).issued.map Issued.id = [0, 1]) ∧
    (∃ issued ∈ (Run.final (step {} shortToken) (start 996300000 oneUser)
      (revokeCall 0 ++ [.pass 3000000] ++ refreshCall 1)).issued,
      issued.id ∈ (Run.final (step {} shortToken) (start 996300000 oneUser)
        (revokeCall 0 ++ [.pass 3000000] ++ refreshCall 1)).late) := by
  refine ⟨by decide, by decide, ?_⟩
  decide

end Kortex.AuthService.Rotation
