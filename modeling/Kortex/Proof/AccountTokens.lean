import Kortex.Library.Run
import Kortex.Model.AccountTokens

/-
This file proves where the tokens come from that change an account or act for it.
-/

namespace Kortex.AccountService

variable {d : Deployment} {s s' : State d} {token : Claims}

/-- The account was created with this password, or a reset has set it. -/
def HashOf (s : State d) (userId : Nat) (hash : Str) : Prop :=
  ∃ at_, (Act.created userId hash, at_) ∈ s.journal ∨
    ∃ token, (Act.passwordSet userId token hash, at_) ∈ s.journal

/-- The user has registered, or somebody has logged in with the password of the user. -/
def Entered (s : State d) (userId : Nat) : Prop :=
  ∃ at_, (Act.registered userId, at_) ∈ s.journal ∨
    ∃ hash password, (Act.loggedIn userId hash password, at_) ∈ s.journal

/-- The token was mailed to the address of its account, and lasts no longer than this. -/
structure MailedTo (s : State d) (token : Claims) (ttl : Int) (mail : Mail) : Prop where
  sent : mail ∈ s.outbox
  link : mail.token = token
  owner : ∃ a ∈ s.accounts.rows, a.id = token.sub ∧ d.citext a.email = d.citext mail.recipient
  past : mail.sentAt ≤ s.now
  lasts : token.exp * 1000000 ≤ mail.sentAt + ttl * 1000000

/-- A token that the secret has signed was mailed, or was handed to a user who had entered. -/
inductive Issued (s : State d) (token : Claims) : Prop
  | reset (type : token.type = "reset".toList) (mail : Mail) (mailed : MailedTo s token inviteTtl mail)
  | verify (type : token.type = "verify".toList) (mail : Mail) (mailed : MailedTo s token verifyTtl mail)
  | session (type : token.type = "access".toList ∨ token.type = "refresh".toList)
      (entered : Entered s token.sub)

/-- The mail came before this time, and its token was still good. -/
def Fresh (ttl : Int) (mail : Mail) (at_ : Instant) : Prop :=
  mail.sentAt ≤ at_ ∧ at_ < mail.sentAt + ttl * 1000000

/-- This is what stands behind an act of the journal. -/
def Explained (s : State d) : Act × Instant → Prop
  | (.created _ _, _) => True
  | (.registered _, _) => True
  | (.loggedIn userId hash password, _) => d.hasher.verify hash password = true ∧ HashOf s userId hash
  | (.session userId token, at_) => token.type = "access".toList ∧ token.sub = userId ∧
      at_ < token.exp * 1000000 ∧ Entered s userId
  | (.passwordSet userId token _, at_) => token.type = "reset".toList ∧ token.sub = userId ∧
      ∃ mail, MailedTo s token inviteTtl mail ∧ Fresh inviteTtl mail at_
  | (.verified userId token, at_) => token.type = "verify".toList ∧ token.sub = userId ∧
      ∃ mail, MailedTo s token verifyTtl mail ∧ Fresh verifyTtl mail at_

/-- Every token and every act has its origin, and so has what an account has. -/
structure Sound (s : State d) : Prop where
  clock : 0 ≤ s.now
  signed : ∀ token ∈ s.signed, Issued s token
  journal : ∀ entry ∈ s.journal, Explained s entry
  passwords : ∀ a ∈ s.accounts.rows, ∀ hash, a.passwordHash = some hash → HashOf s a.id hash
  verified : ∀ a ∈ s.accounts.rows, a.emailVerified = true →
    ∃ token at_, (Act.verified a.id token, at_) ∈ s.journal

/-- Nothing is forgotten, and no account changes its id or its email. -/
structure Grows (s s' : State d) : Prop where
  accounts : ∀ a ∈ s.accounts.rows, ∃ a' ∈ s'.accounts.rows, a'.id = a.id ∧ a'.email = a.email
  outbox : s.outbox ⊆ s'.outbox
  journal : s.journal ⊆ s'.journal
  now : s.now ≤ s'.now

namespace Grows

theorem of_accounts_eq (accounts : s'.accounts = s.accounts) (outbox : s.outbox ⊆ s'.outbox)
    (journal : s.journal ⊆ s'.journal) (now : s.now ≤ s'.now) : Grows s s' :=
  ⟨fun a inside => ⟨a, accounts ▸ inside, rfl, rfl⟩, outbox, journal, now⟩

variable (grows : Grows s s')

include grows

theorem hashOf {userId : Nat} {hash : Str} (origin : HashOf s userId hash) : HashOf s' userId hash := by
  obtain ⟨at_, created | ⟨token, set⟩⟩ := origin
  · exact ⟨at_, Or.inl (grows.journal created)⟩
  · exact ⟨at_, Or.inr ⟨token, grows.journal set⟩⟩

theorem entered {userId : Nat} (origin : Entered s userId) : Entered s' userId := by
  obtain ⟨at_, registered | ⟨hash, password, logged⟩⟩ := origin
  · exact ⟨at_, Or.inl (grows.journal registered)⟩
  · exact ⟨at_, Or.inr ⟨hash, password, grows.journal logged⟩⟩

theorem mailedTo {ttl : Int} {mail : Mail} (mailed : MailedTo s token ttl mail) :
    MailedTo s' token ttl mail where
  sent := grows.outbox mailed.sent
  link := mailed.link
  owner := by
    obtain ⟨a, inside, own, address⟩ := mailed.owner
    obtain ⟨a', inside', same, email⟩ := grows.accounts a inside
    exact ⟨a', inside', same.trans own, by rw [email, address]⟩
  past := mailed.past.trans grows.now
  lasts := mailed.lasts

theorem issued (origin : Issued s token) : Issued s' token := by
  cases origin with
  | reset type mail mailed => exact Issued.reset type mail (grows.mailedTo mailed)
  | verify type mail mailed => exact Issued.verify type mail (grows.mailedTo mailed)
  | session type entered => exact Issued.session type (grows.entered entered)

theorem explained {entry : Act × Instant} (explained : Explained s entry) : Explained s' entry := by
  obtain ⟨act, at_⟩ := entry
  cases act with
  | created userId hash => trivial
  | registered userId => trivial
  | loggedIn userId hash password => exact ⟨explained.1, grows.hashOf explained.2⟩
  | session userId token =>
      obtain ⟨type, own, early, entered⟩ := explained
      exact ⟨type, own, early, grows.entered entered⟩
  | passwordSet userId token hash =>
      obtain ⟨type, own, mail, mailed, fresh⟩ := explained
      exact ⟨type, own, mail, grows.mailedTo mailed, fresh⟩
  | verified userId token =>
      obtain ⟨type, own, mail, mailed, fresh⟩ := explained
      exact ⟨type, own, mail, grows.mailedTo mailed, fresh⟩

end Grows

namespace Sound

variable (sound : Sound s)

include sound

/-- Where the accounts stay, it is enough to explain what is new. -/
theorem of_grows (grows : Grows s s') (accounts : s'.accounts = s.accounts)
    (signed : ∀ token ∈ s'.signed, token ∈ s.signed ∨ Issued s' token)
    (journal : ∀ entry ∈ s'.journal, entry ∈ s.journal ∨ Explained s' entry) : Sound s' where
  clock := sound.clock.trans grows.now
  signed token inside :=
    (signed token inside).elim (fun before => grows.issued (sound.signed token before)) id
  journal entry inside :=
    (journal entry inside).elim (fun before => grows.explained (sound.journal entry before)) id
  passwords a inside hash known :=
    grows.hashOf (sound.passwords a (accounts ▸ inside) hash known)
  verified a inside known := by
    obtain ⟨token, at_, recorded⟩ := sound.verified a (accounts ▸ inside) known
    exact ⟨token, at_, grows.journal recorded⟩

theorem pass (duration : Nat) : Sound { s with now := s.now + duration } :=
  sound.of_grows (Grows.of_accounts_eq rfl (List.Subset.refl _) (List.Subset.refl _)
    (Int.le_add_of_nonneg_right (Int.natCast_nonneg duration))) rfl (fun _ => Or.inl) fun _ => Or.inl

theorem withDenylist (denylist : TokenDenylist) : Sound { s with denylist := denylist } :=
  sound.of_grows (Grows.of_accounts_eq rfl (List.Subset.refl _) (List.Subset.refl _) (le_refl _)) rfl
    (fun _ => Or.inl) fun _ => Or.inl

theorem record (act : Act) (explained : Explained (s.record act) (act, s.now)) : Sound (s.record act) := by
  refine sound.of_grows (Grows.of_accounts_eq rfl (List.Subset.refl _) (List.subset_append_left _ _)
    (le_refl _)) rfl (fun _ => Or.inl) ?_
  intro entry inside
  rcases List.mem_append.mp inside with before | last
  · exact Or.inl before
  · rw [List.mem_singleton.mp last]
    exact Or.inr explained

theorem sign (token : Claims) (issued : Issued s token) : Sound (s.sign token) := by
  have grows : Grows s (s.sign token) := Grows.of_accounts_eq rfl (List.Subset.refl _)
    (List.Subset.refl _) (le_refl _)
  refine sound.of_grows grows rfl ?_ fun _ => Or.inl
  intro other inside
  rcases List.mem_append.mp inside with before | last
  · exact Or.inl before
  · rw [List.mem_singleton.mp last]
    exact Or.inr (grows.issued issued)

theorem issueTokens {userId : Nat} (entered : Entered s userId) (jtis : Jtis) :
    Sound (issueTokens s userId jtis) := by
  have first := sound.sign (.encode d.settings s.now userId d.settings.jwtAccessTtlSeconds "access"
    jtis.access) (Issued.session (Or.inl rfl) entered)
  exact first.sign _ (Issued.session (Or.inr rfl) entered)

/-- A token ends within its time to live. -/
theorem exp_encode_le (userId : Nat) (ttl : Int) (type : Str) (positive : 0 < ttl) :
    (Claims.encode d.settings s.now userId ttl type).exp * 1000000 ≤ s.now + ttl * 1000000 := by
  have later : 0 ≤ s.now + ttl * 1000000 := Int.add_nonneg sound.clock (by omega)
  rw [Claims.encode]
  simp only [if_neg (ne_of_gt positive), Int.tdiv_eq_ediv_of_nonneg later]
  exact Int.ediv_mul_le _ (by decide)

theorem send {a : AccountRow} (inside : a ∈ s.accounts.rows) (recipient : Str)
    (address : d.citext a.email = d.citext recipient) (ttl : Int) (positive : 0 < ttl) (type : Str)
    (kind : type = "reset".toList ∧ ttl ≤ inviteTtl ∨ type = "verify".toList ∧ ttl ≤ verifyTtl) :
    Sound (s.send recipient (.encode d.settings s.now a.id ttl type)) := by
  have lasts := sound.exp_encode_le a.id ttl type positive
  have grows : Grows s (s.send recipient (.encode d.settings s.now a.id ttl type)) :=
    Grows.of_accounts_eq rfl (List.subset_append_left _ _) (List.Subset.refl _) (le_refl _)
  have mailed (most : Int) (within : ttl ≤ most) : MailedTo (s.send recipient
      (.encode d.settings s.now a.id ttl type)) (.encode d.settings s.now a.id ttl type) most
        ⟨recipient, .encode d.settings s.now a.id ttl type, s.now⟩ := by
    have longer : s.now + ttl * 1000000 ≤ s.now + most * 1000000 := Int.add_le_add_left (by omega) _
    exact ⟨List.mem_append_right _ (List.mem_singleton_self _), rfl, ⟨a, inside, rfl, address⟩, le_refl _,
      lasts.trans longer⟩
  refine sound.of_grows grows rfl ?_ fun _ => Or.inl
  intro token present
  rcases List.mem_append.mp present with before | last
  · exact Or.inl before
  · rw [List.mem_singleton.mp last]
    rcases kind with ⟨reset, within⟩ | ⟨verify, within⟩
    · exact Or.inr (Issued.reset reset _ (mailed inviteTtl within))
    · exact Or.inr (Issued.verify verify _ (mailed verifyTtl within))

theorem create {gap : Nat} {email password : Str} {a : AccountRow}
    (done : create s gap email password = some (a, s')) :
    Sound s' ∧ a ∈ s'.accounts.rows ∧ a.email = email := by
  obtain ⟨accounts, inserted, same⟩ := Option.map_eq_some_iff.mp done
  obtain ⟨rfl, rfl⟩ := Prod.mk.inj same
  obtain ⟨rows, _⟩ := Table.insert?_eq_some _ _ _ inserted
  have grows : Grows s ({ s with accounts := accounts }.record (.created
      (nextId AccountRow.id s.accounts.rows gap) (d.hasher.hash password))) := by
    refine ⟨?_, List.Subset.refl _, List.subset_append_left _ _, le_refl _⟩
    intro b inside
    exact ⟨b, by rw [State.record, rows]; exact List.mem_append_left _ inside, rfl, rfl⟩
  refine ⟨⟨sound.clock, ?_, ?_, ?_, ?_⟩, ?_, rfl⟩
  · intro token inside
    exact grows.issued (sound.signed token inside)
  · intro entry inside
    rcases List.mem_append.mp inside with before | last
    · exact grows.explained (sound.journal entry before)
    · rw [List.mem_singleton.mp last]
      trivial
  · intro b inside hash known
    change b ∈ accounts.rows at inside
    rw [rows] at inside
    rcases List.mem_append.mp inside with before | last
    · exact grows.hashOf (sound.passwords b before hash known)
    · rw [List.mem_singleton.mp last] at known ⊢
      rw [← Option.some.inj known]
      exact ⟨s.now, Or.inl (List.mem_append_right _ (List.mem_singleton_self _))⟩
  · intro b inside known
    change b ∈ accounts.rows at inside
    rw [rows] at inside
    rcases List.mem_append.mp inside with before | last
    · obtain ⟨token, at_, recorded⟩ := sound.verified b before known
      exact ⟨token, at_, grows.journal recorded⟩
    · rw [List.mem_singleton.mp last] at known
      cases known
  · change _ ∈ accounts.rows
    rw [rows]
    exact List.mem_append_right _ (List.mem_singleton_self _)

theorem sendVerification {a : AccountRow} (inside : a ∈ s.accounts.rows) :
    Sound (sendVerification s a.id a.email) :=
  sound.send inside a.email rfl verifyTtl (by decide) "verify" (Or.inr ⟨rfl, le_refl _⟩)

omit sound in
theorem getByEmail_eq_some {email : Str} {a : AccountRow} (found : getByEmail s email = some a) :
    a ∈ s.accounts.rows ∧ d.citext a.email = d.citext email := by
  have own := List.find?_some found
  simp only [Bool.and_eq_true, beq_iff_eq] at own
  exact ⟨List.mem_of_find?_eq_some found, own.1⟩

theorem register (gap : Nat) (email password : Str) (jtis : Jtis) :
    Sound (register s gap email password jtis) := by
  rw [AccountService.register]
  split
  · exact sound
  · split
    · exact sound
    · next user s' done =>
        obtain ⟨created, inside, _⟩ := sound.create done
        have recorded := (created.sendVerification inside).record (.registered user.id) trivial
        exact recorded.issueTokens ⟨_, Or.inl (List.mem_append_right _ (List.mem_singleton_self _))⟩ jtis

theorem invite (gap : Nat) (email password : Str) : Sound (invite s gap email password) := by
  have mails {s : State d} (sound : Sound s) {user : AccountRow}
      (found : getByEmail s email = some user) :
      Sound (s.send email (.encode d.settings s.now user.id inviteTtl "reset")) := by
    obtain ⟨inside, address⟩ := getByEmail_eq_some found
    exact sound.send inside email address inviteTtl (by decide) "reset" (Or.inl ⟨rfl, le_refl _⟩)
  rw [AccountService.invite]
  cases known : getByEmail s email with
  | some user =>
      dsimp only
      rw [known]
      exact mails sound known
  | none =>
      cases made : AccountService.create s gap email password with
      | none => exact sound
      | some outcome =>
          dsimp only [Option.map_some]
          cases found : getByEmail outcome.2 email with
          | none => exact (sound.create made).1
          | some user => exact mails (sound.create made).1 found

theorem login (email password : Str) (jtis : Jtis) : Sound (login s email password jtis) := by
  rw [AccountService.login]
  split
  · exact sound
  · next user found =>
      split
      · exact sound
      · next hash known =>
          split
          · next verifies =>
              have origin := sound.passwords user (getByEmail_eq_some found).1 hash known
              have grows : Grows s (s.record (.loggedIn user.id hash password)) :=
                Grows.of_accounts_eq rfl (List.Subset.refl _) (List.subset_append_left _ _) (le_refl _)
              have recorded := sound.record (.loggedIn user.id hash password)
                ⟨verifies, grows.hashOf origin⟩
              exact recorded.issueTokens ⟨_, Or.inr ⟨hash, password,
                List.mem_append_right _ (List.mem_singleton_self _)⟩⟩ jtis
          · exact sound

omit sound in
theorem decode_eq_some {expected : Str} {payload : Claims}
    (done : token.decode s.signed s.now expected = some payload) :
    payload = token ∧ token ∈ s.signed ∧ s.now < token.exp * 1000000 ∧ token.type = expected := by
  rw [Claims.decode, Option.ite_none_right_eq_some] at done
  exact ⟨(Option.some.inj done.2).symm, done.1⟩

/-- A token for a reset was mailed, and a token for a verification too. -/
theorem mailed_of_decode (inside : token ∈ s.signed) (early : s.now < token.exp * 1000000) :
    (token.type = "reset".toList → ∃ mail, MailedTo s token inviteTtl mail ∧ Fresh inviteTtl mail s.now) ∧
      (token.type = "verify".toList →
        ∃ mail, MailedTo s token verifyTtl mail ∧ Fresh verifyTtl mail s.now) := by
  have fresh {ttl : Int} {mail : Mail} (mailed : MailedTo s token ttl mail) : Fresh ttl mail s.now :=
    ⟨mailed.past, lt_of_lt_of_le early mailed.lasts⟩
  cases sound.signed token inside with
  | reset type mail mailed =>
      exact ⟨fun _ => ⟨mail, mailed, fresh mailed⟩, fun other => absurd (type.symm.trans other) (by decide)⟩
  | verify type mail mailed =>
      exact ⟨fun other => absurd (type.symm.trans other) (by decide), fun _ => ⟨mail, mailed, fresh mailed⟩⟩
  | session type _ =>
      rcases type with type | type
      · exact ⟨fun other => absurd (type.symm.trans other) (by decide),
          fun other => absurd (type.symm.trans other) (by decide)⟩
      · exact ⟨fun other => absurd (type.symm.trans other) (by decide),
          fun other => absurd (type.symm.trans other) (by decide)⟩

omit sound in
theorem grows_change (userId : Nat) (f : AccountRow → AccountRow)
    (keeps : ∀ a, ((f a).id, d.citext (f a).email) = (a.id, d.citext a.email))
    (email : ∀ a, (f a).email = a.email) (act : Act) :
    Grows s ((change s userId f keeps).record act) := by
  refine ⟨?_, List.Subset.refl _, List.subset_append_left _ _, le_refl _⟩
  intro a inside
  refine ⟨Table.changeRow _ f a, List.mem_map_of_mem inside, ?_⟩
  rw [Table.changeRow]
  split
  · exact ⟨congrArg Prod.fst (keeps a), email a⟩
  · exact ⟨rfl, rfl⟩

omit sound in
theorem mem_change {userId : Nat} {f : AccountRow → AccountRow}
    {keeps : ∀ a, ((f a).id, d.citext (f a).email) = (a.id, d.citext a.email)} {act : Act} {a : AccountRow}
    (inside : a ∈ ((change s userId f keeps).record act).accounts.rows) :
    ∃ before ∈ s.accounts.rows, a = before ∨ before.id = userId ∧ a = f before := by
  obtain ⟨before, present, rfl⟩ := List.mem_map.mp inside
  refine ⟨before, present, ?_⟩
  rw [Table.changeRow]
  split
  · next chosen =>
      rw [Bool.and_eq_true, beq_iff_eq] at chosen
      exact Or.inr ⟨chosen.1, rfl⟩
  · exact Or.inl rfl

theorem confirmPasswordReset (token : Claims) (newPassword : Str) :
    Sound (confirmPasswordReset s token newPassword) := by
  rw [AccountService.confirmPasswordReset]
  split
  · exact sound
  · next payload decoded =>
      obtain ⟨rfl, inside, early, type⟩ := decode_eq_some decoded
      obtain ⟨mail, mailed, fresh⟩ := (sound.mailed_of_decode inside early).1 type
      have grows := @grows_change d s payload.sub (withPassword (d.hasher.hash newPassword))
        (withPassword_ident _ _) (fun _ => rfl)
        (.passwordSet payload.sub payload (d.hasher.hash newPassword))
      refine ⟨sound.clock, ?_, ?_, ?_, ?_⟩
      · intro token inside
        exact grows.issued (sound.signed token inside)
      · intro entry inside
        rcases List.mem_append.mp inside with before | last
        · exact grows.explained (sound.journal entry before)
        · rw [List.mem_singleton.mp last]
          exact ⟨type, rfl, mail, grows.mailedTo mailed, fresh⟩
      · intro a inside hash known
        obtain ⟨before, present, rfl | ⟨own, rfl⟩⟩ := mem_change inside
        · exact grows.hashOf (sound.passwords a present hash known)
        · rw [← Option.some.inj known]
          change HashOf _ before.id _
          rw [own]
          exact ⟨s.now, Or.inr ⟨payload, List.mem_append_right _ (List.mem_singleton_self _)⟩⟩
      · intro a inside known
        obtain ⟨before, present, rfl | ⟨own, rfl⟩⟩ := mem_change inside
        · obtain ⟨token, at_, recorded⟩ := sound.verified a present known
          exact ⟨token, at_, grows.journal recorded⟩
        · obtain ⟨token, at_, recorded⟩ := sound.verified before present known
          exact ⟨token, at_, grows.journal recorded⟩

theorem confirmVerification (token : Claims) : Sound (confirmVerification s token) := by
  rw [AccountService.confirmVerification]
  split
  · exact sound
  · next payload decoded =>
      obtain ⟨rfl, inside, early, type⟩ := decode_eq_some decoded
      obtain ⟨mail, mailed, fresh⟩ := (sound.mailed_of_decode inside early).2 type
      have grows := @grows_change d s payload.sub withVerified (withVerified_ident _) (fun _ => rfl)
        (.verified payload.sub payload)
      refine ⟨sound.clock, ?_, ?_, ?_, ?_⟩
      · intro token inside
        exact grows.issued (sound.signed token inside)
      · intro entry inside
        rcases List.mem_append.mp inside with before | last
        · exact grows.explained (sound.journal entry before)
        · rw [List.mem_singleton.mp last]
          exact ⟨type, rfl, mail, grows.mailedTo mailed, fresh⟩
      · intro a inside hash known
        obtain ⟨before, present, rfl | ⟨own, rfl⟩⟩ := mem_change inside
        · exact grows.hashOf (sound.passwords a present hash known)
        · exact grows.hashOf (sound.passwords before present hash known)
      · intro a inside known
        obtain ⟨before, present, rfl | ⟨own, rfl⟩⟩ := mem_change inside
        · obtain ⟨token, at_, recorded⟩ := sound.verified a present known
          exact ⟨token, at_, grows.journal recorded⟩
        · change ∃ token at_, (Act.verified before.id token, at_) ∈ _
          rw [own]
          exact ⟨payload, s.now, List.mem_append_right _ (List.mem_singleton_self _)⟩

theorem revokePayload (redis : Bool) (token : Claims) : Sound (revokePayload s redis token) := by
  rw [AccountService.revokePayload]
  split
  · exact sound.withDenylist _
  · exact sound

omit sound in
theorem getById_eq_some {userId : Nat} {a : AccountRow} (found : getById s userId = some a) :
    a ∈ s.accounts.rows ∧ a.id = userId := by
  have own := List.find?_some found
  simp only [Bool.and_eq_true, beq_iff_eq] at own
  exact ⟨List.mem_of_find?_eq_some found, own.1⟩

/-- The subject of a token for a session has entered. -/
theorem entered_of_decode (inside : token ∈ s.signed)
    (type : token.type = "access".toList ∨ token.type = "refresh".toList) : Entered s token.sub := by
  cases sound.signed token inside with
  | reset other _ _ => rcases type with type | type <;> exact absurd (other.symm.trans type) (by decide)
  | verify other _ _ => rcases type with type | type <;> exact absurd (other.symm.trans type) (by decide)
  | session _ entered => exact entered

theorem refresh (redis : Bool) (token : Claims) (jtis : Jtis) : Sound (refresh s redis token jtis) := by
  rw [AccountService.refresh]
  split
  · exact sound
  · next payload decoded =>
      obtain ⟨rfl, inside, _, type⟩ := decode_eq_some decoded
      split
      · exact sound
      · split
        · exact sound
        · next user found =>
            have entered := sound.entered_of_decode inside (Or.inr type)
            rw [← (getById_eq_some found).2] at entered
            refine (sound.revokePayload redis payload).issueTokens ?_ jtis
            unfold AccountService.revokePayload
            split <;> exact entered

theorem authenticate (token : Claims) : Sound (authenticate s token).2 ∧
    ∀ a, (authenticate s token).1 = some a → a ∈ (authenticate s token).2.accounts.rows := by
  rw [AccountService.authenticate]
  split
  · exact ⟨sound, fun a none => by cases none⟩
  · next payload decoded =>
      obtain ⟨rfl, inside, early, type⟩ := decode_eq_some decoded
      split
      · exact ⟨sound, fun a none => by cases none⟩
      · next user found =>
          obtain ⟨present, own⟩ := getById_eq_some found
          have entered := sound.entered_of_decode inside (Or.inl type)
          rw [← own] at entered
          have grows : Grows s (s.record (.session user.id payload)) :=
            Grows.of_accounts_eq rfl (List.Subset.refl _) (List.subset_append_left _ _) (le_refl _)
          refine ⟨sound.record _ ⟨type, own.symm, early, grows.entered entered⟩, ?_⟩
          intro a same
          rw [← Option.some.inj same]
          exact present

theorem step (event : Event) : Sound (step s event) := by
  cases event with
  | pass duration => exact sound.pass duration
  | register gap email password jtis => exact sound.register gap email password jtis
  | createUser gap email password =>
      rw [AccountService.step]
      cases made : AccountService.create s gap email password with
      | none => exact sound
      | some outcome => exact (sound.create made).1
  | invite gap email password => exact sound.invite gap email password
  | login email password jtis => exact sound.login email password jtis
  | refresh redis token jtis => exact sound.refresh redis token jtis
  | logout redis token =>
      rw [AccountService.step, revokeRefresh]
      split
      · exact sound
      · exact sound.revokePayload redis _
  | requestPasswordReset email =>
      rw [AccountService.step, requestPasswordReset]
      split
      · exact sound
      · next user found =>
          split
          · exact sound
          · exact sound.send (getByEmail_eq_some found).1 user.email rfl resetTtl (by decide) "reset"
              (Or.inl ⟨rfl, by decide⟩)
  | confirmPasswordReset token newPassword => exact sound.confirmPasswordReset token newPassword
  | resendVerification email =>
      rw [AccountService.step, resendVerification]
      split
      · exact sound
      · next user found =>
          split
          · exact sound
          · exact sound.sendVerification (getByEmail_eq_some found).1
  | sendMyVerification token =>
      obtain ⟨recorded, listed⟩ := sound.authenticate token
      rw [AccountService.step, sendMyVerification]
      revert recorded listed
      cases AccountService.authenticate s token with
      | mk found s' =>
          intro recorded listed
          cases found with
          | none => exact recorded
          | some user =>
              dsimp only
              split
              · exact recorded
              · exact recorded.sendVerification (listed user rfl)
  | confirmVerification token => exact sound.confirmVerification token
  | request token => exact (sound.authenticate token).1

end Sound

/-- In every run: a session acts for a user who registered or logged in with a password that the account
had; such a password is the first one, or was set by a token for a reset that was mailed to the address of
the account at most seven days before; and an address counts as verified only by a token that was mailed
to it at most a day before. No token stands in for one of another kind. -/
theorem tokens_explained (d : Deployment) (start : Nat) (events : List Event) :
    Sound (Run.final step ({ now := (start : Int) } : State d) events) := by
  have begins : Sound ({ now := (start : Int) } : State d) := by
    refine ⟨Int.natCast_nonneg start, ?_, ?_, ?_, ?_⟩
    · intro token inside
      cases inside
    · intro entry inside
      cases inside
    · intro a inside
      cases inside
    · intro a inside
      cases inside
  exact (Run.always_of_step (fun _ event sound => sound.step event) events begins).final

end Kortex.AccountService
