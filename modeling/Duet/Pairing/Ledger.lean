import Duet.Pairing.Calls
import Mathlib.Data.List.Nodup

/-!
# The ledger of invites

An accepted invite is consumed in the ledger that the call loaded when it began, and that ledger is
written back. As long as it is still the one that is stored, every token is accepted once, and the
ledger keeps what has been created and consumed.

## Main results

* `Pairing.keepsLedger_of_writesBackLoaded` — runs in which every ledger that is written back is the
  one that is stored.
* `Pairing.not_keepsLedger` — an invite that is lost.
-/

namespace Duet

open Lib Async

/-- The invite is stored, used or not. -/
def App.Stores (app : App) (invite : StoredInvite) : Prop :=
  ∃ stored ∈ app.invites, { stored with consumed := invite.consumed } = invite

/-- The ledger that a call has loaded and goes on to write back. -/
def AppAwait.loaded? : AppAwait → Option (List StoredInvite)
  | .pairCollaborator invites => some invites
  | _ => none

namespace Pairing

/-- How often an invite has been accepted. -/
def accepts (s : Pairing) (token : String) : Nat :=
  s.finished.countP fun entry => entry.1.accepts? == some token && entry.2.toOption.isSome

/-- Every token has been accepted at most once, the created invites are stored, and the accepted ones
are consumed. -/
structure KeepsLedger (s : Pairing) : Prop where
  once : ∀ token, s.accepts token ≤ 1
  created : ∀ token now ownerId pieceId ownerName reply,
    (InviteCall.createInvite token now ownerId pieceId ownerName, .ok reply) ∈ s.finished →
      s.state.Stores (newInvite token now ownerId pieceId ownerName)
  accepted : ∀ now token userId name email reply,
    (InviteCall.acceptLink now token userId name email, .ok reply) ∈ s.finished →
      ∃ invite, s.state.invites.find? (fun invite => invite.token == token) = some invite ∧
        invite.consumed = true

/-- The tokens that are generated are new. -/
def NewTokens (start : App) (s : Pairing) : PairingEvent → Prop
  | .call c => ∀ token ∈ c.creates?, token ∉ start.invites.map (·.token) ∧
      ∀ c' ∈ s.called, c'.creates? ≠ some token
  | _ => True

/-- A call that goes on to write back the ledger it has loaded finds it stored. -/
def WritesBackLoaded (s : Pairing) : PairingEvent → Prop
  | .resume i _ => ∀ task ∈ s.running[i]?, ∀ point ∈ task.rest.point?, ∀ invites ∈ point.loaded?,
      s.state.invites = invites
  | _ => True

instance {start : App} (s : Pairing) : (e : PairingEvent) → Decidable (NewTokens start s e)
  | .call c => inferInstanceAs (Decidable (∀ token ∈ c.creates?,
      token ∉ start.invites.map (·.token) ∧ ∀ c' ∈ s.called, c'.creates? ≠ some token))
  | .resume .. | .kill => isTrue trivial

instance (s : Pairing) : (e : PairingEvent) → Decidable (WritesBackLoaded s e)
  | .resume i _ => inferInstanceAs (Decidable (∀ task ∈ s.running[i]?, ∀ point ∈ task.rest.point?,
      ∀ invites ∈ point.loaded?, s.state.invites = invites))
  | .call .. | .kill => isTrue trivial

/-! ## What is counted -/

/-- Whether a call has still to write the invite that it creates. -/
def creatingAt (token : String) (c : InviteCall) : Stop AppAwait AppFailure InviteReply → Nat
  | .waits point => if c.creates? = some token ∧ point ≠ .persist then 1 else 0
  | .ends _ => 0

/-- Whether a call has consumed the invite that it accepts, and not returned. -/
def acceptingAt (token : String) (c : InviteCall) : Stop AppAwait AppFailure InviteReply → Nat
  | .waits point => if c.accepts? = some token ∧ point = .persist then 1 else 0
  | .ends _ => 0

/-- Whether a call has returned, and accepted the invite. -/
def acceptedAt (token : String) (c : InviteCall) : Stop AppAwait AppFailure InviteReply → Nat
  | .ends (.ok _) => if c.accepts? = some token then 1 else 0
  | _ => 0

/-- The calls that have still to write an invite. -/
def creating (s : Pairing) (token : String) : Nat :=
  s.running.countP fun task =>
    task.call.creates? == some token && task.rest.point? != some .persist

/-- The calls that have consumed an invite, and not returned. -/
def accepting (s : Pairing) (token : String) : Nat :=
  s.running.countP fun task =>
    task.call.accepts? == some token && task.rest.point? == some .persist

/-- The invites of a token in the ledger. -/
def stored (app : App) (token : String) : Nat :=
  app.invites.countP fun invite => invite.token == token

/-- The consumed invites of a token in the ledger. -/
def consumed (app : App) (token : String) : Nat :=
  app.invites.countP fun invite => invite.token == token && invite.consumed

variable {s t : Pairing} {c : InviteCall} {left : AppCall InviteReply × App} {i : Nat}
  {stop : Stop AppAwait AppFailure InviteReply} {token : String} {point : AppAwait}
  {k : Unit → AppCall InviteReply}

theorem creating_settle (hstop : left.1.stop? = some stop) (token : String) :
    creating (s.settle c left) token = s.creating token + creatingAt token c stop := by
  rw [creating, Lib.Isolate.countP_running_settle, creating]
  cases stop with
  | waits point =>
    obtain ⟨hpoint, hended⟩ := point?_of_stop? hstop
    simp [creatingAt, hpoint, hended]
  | ends outcome =>
    obtain ⟨-, hended⟩ := ended?_of_stop? hstop
    simp [creatingAt, hended]

theorem accepting_settle (hstop : left.1.stop? = some stop) (token : String) :
    accepting (s.settle c left) token = s.accepting token + acceptingAt token c stop := by
  rw [accepting, Lib.Isolate.countP_running_settle, accepting]
  cases stop with
  | waits point =>
    obtain ⟨hpoint, hended⟩ := point?_of_stop? hstop
    simp [acceptingAt, hpoint, hended]
  | ends outcome =>
    obtain ⟨-, hended⟩ := ended?_of_stop? hstop
    simp [acceptingAt, hended]

theorem accepts_settle (hstop : left.1.stop? = some stop) (token : String) :
    accepts (s.settle c left) token = s.accepts token + acceptedAt token c stop := by
  rw [accepts, Lib.Isolate.finished_settle, List.countP_append, accepts]
  cases stop with
  | waits point =>
    obtain ⟨-, hended⟩ := point?_of_stop? hstop
    simp [acceptedAt, hended]
  | ends outcome =>
    obtain ⟨-, hended⟩ := ended?_of_stop? hstop
    cases outcome <;> simp [acceptedAt, hended, List.countP_cons, Except.toOption]

theorem creating_erase (h : s.running[i]? = some ⟨c, .await point k⟩) (token : String) :
    creating { s with running := s.running.eraseIdx i } token + creatingAt token c (.waits point) =
      s.creating token := by
  have hcount := Lib.Isolate.countP_eraseIdx h fun task =>
    task.call.creates? == some token && task.rest.point? != some .persist
  simpa [creating, creatingAt] using hcount

theorem accepting_erase (h : s.running[i]? = some ⟨c, .await point k⟩) (token : String) :
    accepting { s with running := s.running.eraseIdx i } token +
      acceptingAt token c (.waits point) = s.accepting token := by
  have hcount := Lib.Isolate.countP_eraseIdx h fun task =>
    task.call.accepts? == some token && task.rest.point? == some .persist
  simpa [accepting, acceptingAt] using hcount

/-- The count of a call before a segment: nothing before its start. -/
def before (count : Stop AppAwait AppFailure InviteReply → Nat) : Option AppAwait → Nat
  | none => 0
  | some point => count (.waits point)

/-! ## What a segment does to the ledger -/

/-- What one segment does: the ledger stays, or an invite is created or consumed. -/
inductive LedgerMove (c : InviteCall) (s t : App) :
    Option AppAwait → Stop AppAwait AppFailure InviteReply → Prop where
  | idle (from? : Option AppAwait) (stop : Stop AppAwait AppFailure InviteReply) (hstop : Idle stop)
      (hfrom : from? = some .persist → c.creates? = none) (hledger : t.invites = s.invites) :
      LedgerMove c s t from? stop
  | returns (from? : Option AppAwait) (reply : InviteReply)
      (hfrom : from? = some .persist ∨ c.creates? = none ∧ c.accepts? = none)
      (hledger : t.invites = s.invites) : LedgerMove c s t from? (.ends (.ok reply))
  | creates (piece : Piece) (isPro : Bool) (token : String) (now : DateTime)
      (ownerId pieceId : String) (ownerName : Option String)
      (hcall : c = .createInvite token now ownerId pieceId ownerName)
      (hledger : t.invites = s.invites ++ [newInvite token now ownerId pieceId ownerName]) :
      LedgerMove c s t (some (.isProUser piece isPro)) (.waits .persist)
  | consumes (invites : List StoredInvite) (token : String) (invite : StoredInvite)
      (hcreates : c.creates? = none) (haccepts : c.accepts? = some token)
      (hvalid : DeepLinkInviteService.requireValid invites token = .ok invite)
      (hledger : t.invites = DeepLinkInviteService.consume invites token) :
      LedgerMove c s t (some (.pairCollaborator invites)) (.waits .persist)

section

variable {from? : Option AppAwait} {s t : App} {invite : StoredInvite}

/-- A segment of a call that does not write the ledger. -/
theorem ledgerMove_of_ne_persist (hcreates : c.creates? = none) (haccepts : c.accepts? = none)
    (hstop : stop ≠ .waits .persist) (hledger : t.invites = s.invites) :
    LedgerMove c s t from? stop := by
  cases stop with
  | waits point => exact .idle _ _ ⟨hstop, fun _ => nofun⟩ (fun _ => hcreates) hledger
  | ends outcome =>
    cases outcome with
    | error e => exact .idle _ _ ⟨nofun, fun _ => nofun⟩ (fun _ => hcreates) hledger
    | ok reply => exact .returns _ _ (.inr ⟨hcreates, haccepts⟩) hledger

theorem ledgerMove (h : LedgerSegment c from? s stop t) : LedgerMove c s t from? stop := by
  cases c with
  | createInvite token now ownerId pieceId ownerName =>
    match from?, h with
    | some (.isProUser _ _), .inl ⟨hidle, hledger⟩ => exact .idle _ _ hidle nofun hledger
    | some (.isProUser _ _), .inr ⟨hstop, hledger⟩ =>
      obtain rfl := hstop
      exact .creates _ _ _ _ _ _ _ rfl hledger
    | some .persist, ⟨hstop, hledger⟩ =>
      obtain rfl := hstop
      exact .returns _ _ (.inl rfl) hledger
    | none, ⟨hidle, hledger⟩ | some .getPiece, ⟨hidle, hledger⟩ | some .emit, ⟨hidle, hledger⟩
    | some .addCollaborator, ⟨hidle, hledger⟩ | some (.pairCollaborator _), ⟨hidle, hledger⟩ =>
      exact .idle _ _ hidle nofun hledger
  | resolveInvite token => exact ledgerMove_of_ne_persist rfl rfl h.1 h.2
  | acceptLink now token userId name email =>
    match from?, h with
    | some (.pairCollaborator _), .inl ⟨hidle, hledger⟩ => exact .idle _ _ hidle nofun hledger
    | some (.pairCollaborator _), .inr ⟨hstop, ⟨invite, hvalid⟩, hledger⟩ =>
      obtain rfl := hstop
      exact .consumes _ _ invite rfl rfl hvalid hledger
    | some .persist, ⟨hstop, hledger⟩ =>
      obtain rfl := hstop
      exact .returns _ _ (.inl rfl) hledger
    | none, ⟨hidle, hledger⟩ | some .getPiece, ⟨hidle, hledger⟩ | some .emit, ⟨hidle, hledger⟩
    | some .addCollaborator, ⟨hidle, hledger⟩ | some (.isProUser _ _), ⟨hidle, hledger⟩ =>
      exact .idle _ _ hidle nofun hledger
  | acceptMessage now invite userId name email => exact ledgerMove_of_ne_persist rfl rfl h.1 h.2

@[simp] theorem stored_consume (invites : List StoredInvite) (token token' : String) :
    (DeepLinkInviteService.consume invites token).countP (fun invite => invite.token == token') =
      invites.countP fun invite => invite.token == token' := by
  rw [DeepLinkInviteService.consume, List.countP_map]
  congr 1
  funext invite
  by_cases h : invite.token = token <;> simp [h]

/-- A consumed invite stays consumed, and the one that is valid becomes so. -/
theorem consumed_consume (invites : List StoredInvite) (token : String) :
    ∀ token', invites.countP (fun invite => invite.token == token' && invite.consumed) ≤
      (DeepLinkInviteService.consume invites token).countP
        fun invite => invite.token == token' && invite.consumed := by
  intro token'
  rw [DeepLinkInviteService.consume, List.countP_map]
  refine List.countP_mono_left fun invite _ h => ?_
  by_cases htoken : invite.token = token <;> simp_all

theorem consumed_lt_of_valid {invites : List StoredInvite}
    (h : DeepLinkInviteService.requireValid invites token = .ok invite) :
    invites.countP (fun invite => invite.token == token && invite.consumed) <
      (DeepLinkInviteService.consume invites token).countP
        fun invite => invite.token == token && invite.consumed := by
  have hall : (DeepLinkInviteService.consume invites token).countP
      (fun invite => invite.token == token && invite.consumed) =
        (invites.filter fun invite => invite.token == token).length := by
    rw [DeepLinkInviteService.consume, List.countP_map, List.countP_eq_length_filter]
    congr 2
    funext invite
    by_cases h : invite.token = token <;> simp [h]
  have hsplit := List.length_eq_countP_add_countP StoredInvite.consumed
    (l := invites.filter fun invite => invite.token == token)
  rw [List.countP_filter, List.countP_filter] at hsplit
  have hpos : 0 < invites.countP fun invite => !invite.consumed && invite.token == token := by
    obtain ⟨hfind, hconsumed⟩ := DeepLinkInviteService.requireValid_eq_ok.mp h
    exact List.countP_pos_iff.mpr ⟨invite, List.mem_of_find?_eq_some hfind, by
      simpa [hconsumed] using List.find?_some hfind⟩
  simp only [Bool.and_comm, decide_not, Bool.decide_eq_true] at hall hsplit hpos ⊢
  omega

/-- No token is in more places than before, a new one apart. -/
theorem creatingAt_add_stored (h : LedgerMove c s t from? stop)
    (hloaded : ∀ invites, from? = some (.pairCollaborator invites) → s.invites = invites)
    (token : String) : creatingAt token c stop + stored t token ≤
      before (creatingAt token c) from? + stored s token +
        if from? = none ∧ c.creates? = some token then 1 else 0 := by
  cases h with
  | idle _ _ hstop hfrom hledger =>
    rw [stored, hledger, ← stored]
    have hstops : creatingAt token c stop ≤ if c.creates? = some token then 1 else 0 := by
      cases stop <;> grind [creatingAt]
    have hbefore : from? ≠ none → (if c.creates? = some token then 1 else 0) ≤
        before (creatingAt token c) from? := by
      intro hpoint
      cases from? with
      | none => exact absurd rfl hpoint
      | some point => grind [before, creatingAt]
    by_cases hpoint : from? = none
    · simp only [hpoint, true_and]
      omega
    · have hle := hbefore hpoint
      omega
  | returns _ reply hfrom hledger =>
    rw [stored, hledger, ← stored]
    simp only [creatingAt]
    omega
  | creates piece isPro token' now ownerId pieceId ownerName hcall hledger =>
    obtain rfl := hcall
    simp [creatingAt, stored, hledger, before, InviteCall.creates?, newInvite, List.countP_append,
      List.countP_cons]
    omega
  | consumes invites token' invite hcreates haccepts hvalid hledger =>
    rw [stored, hledger, stored_consume, ← hloaded _ rfl, ← stored]
    simp only [creatingAt, hcreates]
    simp

/-- A call that consumes an invite makes one more consumed. -/
theorem acceptingAt_add_acceptedAt (h : LedgerMove c s t from? stop)
    (hloaded : ∀ invites, from? = some (.pairCollaborator invites) → s.invites = invites)
    (token : String) : acceptingAt token c stop + acceptedAt token c stop + consumed s token ≤
      before (acceptingAt token c) from? + consumed t token := by
  cases h with
  | idle _ _ hstop hfrom hledger =>
    rw [consumed, consumed, hledger]
    have hidle : acceptingAt token c stop = 0 ∧ acceptedAt token c stop = 0 := by
      obtain ⟨hpersist, hends⟩ := hstop
      rcases stop with point | e | reply
      · have hpoint : point ≠ .persist := fun h => hpersist (congrArg Stop.waits h)
        simp [acceptingAt, acceptedAt, hpoint]
      · exact ⟨rfl, rfl⟩
      · exact absurd rfl (hends reply)
    omega
  | returns _ reply hfrom hledger =>
    rw [consumed, consumed, hledger]
    obtain rfl | ⟨-, hnone⟩ := hfrom
    · simp [acceptingAt, acceptedAt, before]
    · simp [acceptingAt, acceptedAt, hnone]
  | creates piece isPro token' now ownerId pieceId ownerName hcall hledger =>
    obtain rfl := hcall
    simp [acceptingAt, acceptedAt, consumed, hledger, InviteCall.accepts?, newInvite, before]
  | consumes invites token' invite hcreates haccepts hvalid hledger =>
    rw [consumed, consumed, hledger, hloaded _ rfl]
    have hold := consumed_consume invites token' token
    by_cases htoken : token = token'
    · obtain rfl := htoken
      have hnew := consumed_lt_of_valid hvalid
      simp only [acceptingAt, acceptedAt, before, haccepts]
      simp
      omega
    · have hother : (some token' : Option String) ≠ some token := by
        simpa using Ne.symm htoken
      simp only [acceptingAt, acceptedAt, before, haccepts, hother]
      simpa using hold

/-- An invite that is stored stays stored. -/
theorem stores_of_ledgerMove (h : LedgerMove c s t from? stop)
    (hloaded : ∀ invites, from? = some (.pairCollaborator invites) → s.invites = invites)
    (hs : s.Stores invite) : t.Stores invite := by
  obtain ⟨stored, hmem, hstored⟩ := hs
  cases h with
  | idle _ _ hstop hfrom hledger => exact ⟨stored, hledger ▸ hmem, hstored⟩
  | returns _ reply hfrom hledger => exact ⟨stored, hledger ▸ hmem, hstored⟩
  | creates piece isPro token' now ownerId pieceId ownerName hcall hledger =>
    exact ⟨stored, hledger ▸ List.mem_append_left _ hmem, hstored⟩
  | consumes invites token' found hcreates haccepts hvalid hledger =>
    rw [hloaded _ rfl] at hmem
    rw [App.Stores, hledger]
    refine ⟨_, List.mem_map_of_mem hmem, ?_⟩
    rw [← hstored]
    split_ifs <;> rfl

/-- A created invite is stored once it is written. -/
theorem stores_newInvite {now : DateTime} {ownerId pieceId : String} {ownerName : Option String}
    (h : LedgerMove (.createInvite token now ownerId pieceId ownerName) s t from? (.waits .persist)) :
    t.Stores (newInvite token now ownerId pieceId ownerName) := by
  cases h with
  | idle _ _ hstop hfrom hledger => exact absurd rfl hstop.1
  | creates piece isPro token' now ownerId pieceId ownerName hcall hledger =>
    obtain ⟨rfl, rfl, rfl, rfl, rfl⟩ := InviteCall.createInvite.inj hcall
    exact ⟨_, hledger ▸ List.mem_append_right _ (List.mem_singleton_self _), rfl⟩
  | consumes invites token' found hcreates haccepts hvalid hledger => cases haccepts

end

/-! ## Runs -/

/-- What holds between the tokens of the calls and of the ledger. -/
structure LedgerInv (start : App) (s : Pairing) : Prop where
  obeys : s.Obeys LedgerSegment
  known : ∀ token, 0 < s.creating token + stored s.state token →
    token ∈ start.invites.map (·.token) ∨ ∃ c ∈ s.called, c.creates? = some token
  unique : ∀ token, s.creating token + stored s.state token ≤ 1
  waiting : ∀ task ∈ s.running, ∀ token now ownerId pieceId ownerName,
    task.call = .createInvite token now ownerId pieceId ownerName →
      task.rest.point? = some .persist →
        s.state.Stores (newInvite token now ownerId pieceId ownerName)
  created : ∀ token now ownerId pieceId ownerName reply,
    (InviteCall.createInvite token now ownerId pieceId ownerName, .ok reply) ∈ s.finished →
      s.state.Stores (newInvite token now ownerId pieceId ownerName)
  accepted : ∀ token, s.accepting token + s.accepts token ≤ consumed s.state token

variable {start : App} {s t : Pairing}

/-- An entry that is alone with its token is the one that is found. -/
theorem find?_of_countP_le_one {invites : List StoredInvite} {invite : StoredInvite}
    (h : invites.countP (fun invite => invite.token == token) ≤ 1) (hmem : invite ∈ invites)
    (htoken : (invite.token == token) = true) :
    invites.find? (fun invite => invite.token == token) = some invite := by
  induction invites with
  | nil => cases hmem
  | cons first rest ih =>
    rw [List.countP_cons] at h
    cases hfirst : first.token == token with
    | true =>
      have hnone : rest.countP (fun invite => invite.token == token) = 0 := by
        simp only [hfirst, if_true] at h
        omega
      obtain rfl | hrest := List.mem_cons.mp hmem
      · simp [hfirst]
      · exact absurd htoken (List.countP_eq_zero.mp hnone _ hrest)
    | false =>
      obtain rfl | hrest := List.mem_cons.mp hmem
      · rw [hfirst] at htoken
        cases htoken
      · rw [List.find?_cons_of_neg (by simp [hfirst])]
        exact ih (by omega) hrest

theorem LedgerInv.keepsLedger (h : LedgerInv start s) : KeepsLedger s := by
  have hle : ∀ token, consumed s.state token ≤ stored s.state token := fun token =>
    List.countP_mono_left fun invite _ hinvite => by simp_all
  refine ⟨fun token => ?_, h.created, fun now token userId name email reply hmem => ?_⟩
  · have haccepted := h.accepted token
    have hunique := h.unique token
    have hconsumed := hle token
    omega
  · have hpos : 0 < s.accepts token := List.countP_pos_iff.mpr ⟨_, hmem, by
      simp [InviteCall.accepts?, Except.toOption]⟩
    have haccepted := h.accepted token
    obtain ⟨invite, hinvite, hconsumed⟩ := List.countP_pos_iff.mp
      (show 0 < consumed s.state token by omega)
    rw [Bool.and_eq_true] at hconsumed
    refine ⟨invite, ?_, hconsumed.2⟩
    have hunique := h.unique token
    exact find?_of_countP_le_one (show stored s.state token ≤ 1 by omega) hinvite hconsumed.1

theorem ledgerInv_start (h : (start.invites.map (·.token)).Nodup) :
    LedgerInv start (Lib.Isolate.start start) where
  obeys := by simp [Lib.Isolate.Obeys, Lib.Isolate.start]
  known token htoken := by
    obtain ⟨invite, hinvite, heq⟩ := List.countP_pos_iff.mp
      (show 0 < stored start token by simpa [creating, Lib.Isolate.start] using htoken)
    exact .inl (List.mem_map.mpr ⟨invite, hinvite, by simpa using heq⟩)
  unique token := by
    have hcount : (start.invites.map (·.token)).count token = stored start token := by
      rw [List.count, List.countP_map]
      rfl
    have hle := List.nodup_iff_count_le_one.mp h token
    simpa [creating, Lib.Isolate.start, hcount] using hle
  waiting := by simp [Lib.Isolate.start]
  created := by simp [Lib.Isolate.start]
  accepted token := by simp [accepting, accepts, Lib.Isolate.start]

section

variable {from? : Option AppAwait} {left : AppCall InviteReply × App}
  (hmove : LedgerMove c s.state left.2 from? stop) (hstop : left.1.stop? = some stop)
  (hloaded : ∀ invites, from? = some (.pairCollaborator invites) → s.state.invites = invites)

include hmove hstop hloaded

/-- What is stored, and what is written, once a call has been settled. -/
theorem waiting_settle
    (hwaiting : ∀ task ∈ s.running, ∀ token now ownerId pieceId ownerName,
      task.call = .createInvite token now ownerId pieceId ownerName →
        task.rest.point? = some .persist →
          s.state.Stores (newInvite token now ownerId pieceId ownerName)) :
    ∀ task ∈ (s.settle c left).running, ∀ token now ownerId pieceId ownerName,
      task.call = .createInvite token now ownerId pieceId ownerName →
        task.rest.point? = some .persist →
          (s.settle c left).state.Stores (newInvite token now ownerId pieceId ownerName) := by
  intro task htask token now ownerId pieceId ownerName hcall hpoint
  rw [Lib.Isolate.state_settle]
  obtain hold | rfl := Lib.Isolate.mem_running_settle htask
  · exact stores_of_ledgerMove hmove hloaded (hwaiting task hold _ _ _ _ _ hcall hpoint)
  · obtain rfl : stop = .waits .persist := by
      cases stop with
      | waits point =>
        have hpoint' := (point?_of_stop? hstop).1
        rw [hpoint] at hpoint'
        rw [Option.some.inj hpoint']
      | ends outcome =>
        have hpoint' := (ended?_of_stop? hstop).1
        rw [hpoint] at hpoint'
        cases hpoint'
    obtain rfl := hcall
    exact stores_newInvite hmove

theorem created_settle
    (hwritten : from? = some .persist → ∀ token now ownerId pieceId ownerName,
      c = .createInvite token now ownerId pieceId ownerName →
        s.state.Stores (newInvite token now ownerId pieceId ownerName))
    (hcreated : ∀ token now ownerId pieceId ownerName reply,
      (InviteCall.createInvite token now ownerId pieceId ownerName, .ok reply) ∈ s.finished →
        s.state.Stores (newInvite token now ownerId pieceId ownerName)) :
    ∀ token now ownerId pieceId ownerName reply,
      (InviteCall.createInvite token now ownerId pieceId ownerName, .ok reply) ∈
        (s.settle c left).finished →
          (s.settle c left).state.Stores (newInvite token now ownerId pieceId ownerName) := by
  intro token now ownerId pieceId ownerName reply hmem
  rw [Lib.Isolate.state_settle]
  rw [Lib.Isolate.finished_settle, List.mem_append] at hmem
  refine stores_of_ledgerMove hmove hloaded ?_
  obtain hold | hends := hmem
  · exact hcreated _ _ _ _ _ _ hold
  · cases stop with
    | waits point => simp [(point?_of_stop? hstop).2] at hends
    | ends outcome =>
      obtain ⟨rfl, rfl⟩ : InviteCall.createInvite token now ownerId pieceId ownerName = c ∧
          Except.ok reply = outcome := by simpa [(ended?_of_stop? hstop).2] using hends
      cases hmove with
      | idle _ _ hidle hfrom hledger => exact absurd rfl (hidle.2 reply)
      | returns _ _ hfrom hledger =>
        obtain hpersist | ⟨hnone, -⟩ := hfrom
        · exact hwritten hpersist _ _ _ _ _ rfl
        · cases hnone

end

/-- A call begins, with tokens that are new. -/
theorem LedgerInv.call {left : AppCall InviteReply × App} (hs : LedgerInv start s)
    (hnew : NewTokens start s (.call c)) (hstop : left.1.stop? = some stop)
    (hmove : LedgerMove c s.state left.2 none stop)
    (hobeys : ({ s with called := s.called ++ [c] }.settle c left).Obeys LedgerSegment) :
    LedgerInv start ({ s with called := s.called ++ [c] }.settle c left) := by
  have hnone : ∀ invites, (none : Option AppAwait) = some (.pairCollaborator invites) →
      s.state.invites = invites := by simp
  have hcreating : ∀ token, creating { s with called := s.called ++ [c] } token =
      s.creating token := fun _ => rfl
  have haccepting : ∀ token, accepting { s with called := s.called ++ [c] } token +
      accepts { s with called := s.called ++ [c] } token = s.accepting token + s.accepts token :=
    fun _ => rfl
  refine ⟨hobeys, fun token hpos => ?_, fun token => ?_,
    waiting_settle (s := { s with called := s.called ++ [c] }) hmove hstop hnone hs.waiting,
    created_settle (s := { s with called := s.called ++ [c] }) hmove hstop hnone (by simp) hs.created,
    fun token => ?_⟩
  · rw [creating_settle hstop, Lib.Isolate.state_settle, hcreating] at hpos
    have hle := creatingAt_add_stored hmove hnone token
    by_cases htoken : c.creates? = some token
    · exact .inr ⟨c, by simp [Lib.Isolate.called_settle], htoken⟩
    · rw [if_neg (by simp [htoken])] at hle
      obtain hstart | ⟨c', hcalled, hc'⟩ := hs.known token (by simp only [before] at hle; omega)
      · exact .inl hstart
      · exact .inr ⟨c', by simp [Lib.Isolate.called_settle, hcalled], hc'⟩
  · rw [creating_settle hstop, Lib.Isolate.state_settle, hcreating]
    have hle := creatingAt_add_stored hmove hnone token
    have hunique := hs.unique token
    simp only [before] at hle
    split_ifs at hle with htoken
    · have hfresh := hnew token (Option.mem_def.mpr htoken.2)
      have hzero : ¬0 < s.creating token + stored s.state token := by
        intro hpos
        obtain hstart | ⟨c', hcalled, hc'⟩ := hs.known token hpos
        · exact hfresh.1 hstart
        · exact hfresh.2 c' hcalled hc'
      omega
    · omega
  · rw [accepting_settle hstop, accepts_settle hstop, Lib.Isolate.state_settle]
    have hle := acceptingAt_add_acceptedAt hmove hnone token
    have haccepted := hs.accepted token
    have hsame := haccepting token
    simp only [before] at hle
    omega

/-- A call goes on, and finds the ledger that it writes back stored. -/
theorem LedgerInv.resume {left : AppCall InviteReply × App} (hs : LedgerInv start s)
    (hrunning : s.running[i]? = some ⟨c, .await point k⟩)
    (hledger : ∀ invites, some point = some (.pairCollaborator invites) →
      s.state.invites = invites) (hstop : left.1.stop? = some stop)
    (hmove : LedgerMove c s.state left.2 (some point) stop)
    (hobeys : ({ s with running := s.running.eraseIdx i }.settle c left).Obeys LedgerSegment) :
    LedgerInv start ({ s with running := s.running.eraseIdx i }.settle c left) := by
  have hmem : ∀ task ∈ s.running.eraseIdx i, task ∈ s.running :=
    fun task => List.mem_of_mem_eraseIdx
  refine ⟨hobeys, fun token hpos => ?_, fun token => ?_,
    waiting_settle (s := { s with running := s.running.eraseIdx i }) hmove hstop hledger
      fun task htask => hs.waiting task (hmem task htask),
    created_settle (s := { s with running := s.running.eraseIdx i }) hmove hstop hledger
      (fun hpoint token now ownerId pieceId ownerName hcall => ?_) hs.created, fun token => ?_⟩
  · rw [creating_settle hstop, Lib.Isolate.state_settle] at hpos
    rw [Lib.Isolate.called_settle]
    have hle := creatingAt_add_stored hmove hledger token
    have herase := creating_erase hrunning token
    simp only [before, reduceCtorEq, false_and, if_false] at hle
    exact hs.known token (by omega)
  · rw [creating_settle hstop, Lib.Isolate.state_settle]
    have hle := creatingAt_add_stored hmove hledger token
    have herase := creating_erase hrunning token
    have hunique := hs.unique token
    simp only [before, reduceCtorEq, false_and, if_false] at hle
    omega
  · obtain rfl := Option.some.inj hpoint
    exact hs.waiting _ (List.mem_of_getElem? hrunning) _ _ _ _ _ hcall rfl
  · rw [accepting_settle hstop, accepts_settle hstop, Lib.Isolate.state_settle]
    have hle := acceptingAt_add_acceptedAt hmove hledger token
    have herase := accepting_erase hrunning token
    have haccepted := hs.accepted token
    have hsame : accepts { s with running := s.running.eraseIdx i } token = s.accepts token := rfl
    simp only [before] at hle
    omega

/-- The calls that run are gone with the app. -/
theorem LedgerInv.kill (hs : LedgerInv start s)
    (hobeys : Lib.Isolate.Obeys LedgerSegment ({ s with running := [] } : Pairing)) :
    LedgerInv start { s with running := [] } := by
  refine ⟨hobeys, fun token hpos => hs.known token ?_, fun token => ?_, by simp, hs.created,
    fun token => ?_⟩
  · simp only [creating, List.countP_nil] at hpos ⊢
    omega
  · have hunique := hs.unique token
    simp only [creating, List.countP_nil] at hunique ⊢
    omega
  · have haccepted := hs.accepted token
    simp only [accepting, accepts, List.countP_nil] at haccepted ⊢
    omega

theorem ledgerInv_step {event : PairingEvent} (hs : LedgerInv start s)
    (hnew : NewTokens start s event) (hloaded : WritesBackLoaded s event)
    (hstep : s.step event = some t) : LedgerInv start t := by
  obtain ⟨hobeys, hsegment⟩ := Lib.Isolate.obeys_step follows_ledger hs.obeys hstep
  cases event with
  | call c =>
    obtain ⟨left, stop, hstop, hseg, rfl⟩ := hsegment
    exact hs.call hnew hstop (ledgerMove hseg) hobeys
  | resume i input =>
    obtain ⟨c, point, k, left, stop, hrunning, hstop, hseg, rfl⟩ := hsegment
    refine hs.resume hrunning (fun invites hpoint => ?_) hstop (ledgerMove hseg) hobeys
    obtain rfl := Option.some.inj hpoint
    exact hloaded _ hrunning _ rfl _ rfl
  | kill =>
    obtain rfl := hsegment
    exact hs.kill hobeys

/-- While every ledger that is written back still is the one that is stored, every token is accepted
once, and the created and the consumed invites stay. -/
theorem keepsLedger_of_writesBackLoaded {start : App} {events : List PairingEvent}
    (htokens : (start.invites.map (·.token)).Nodup)
    (hnew : EachStep Pairing.step (NewTokens start) (Lib.Isolate.start start) events)
    (hloaded : EachStep Pairing.step WritesBackLoaded (Lib.Isolate.start start) events) :
    Always Pairing.step KeepsLedger (Lib.Isolate.start start) events :=
  Always.of_invariant (fun _ _ _ hs hcond hstep => ledgerInv_step hs hcond.1 hcond.2 hstep)
    (fun _ hs => hs.keepsLedger) (ledgerInv_start htokens) (hnew.and hloaded)

/-! ## Two invites for one piece -/

/-- Ann's piece, with an invite that has not been used. -/
def annsInvite : App :=
  let piece : Piece := ⟨"p", "Etude", "c0ffee", "p.pdf", "ann", some "Ann", [], noon, noon⟩
  ⟨{ Device.fresh with pieces := [piece] }, [], [⟨"first", "p", "ann", none, 0, false⟩], false⟩

/-- Ann invites once more. -/
def invitesAgain : InviteCall := .createInvite "second" noon "ann" "p" none

/-- Bob accepts the first invite. -/
def acceptsFirst : InviteCall := .acceptLink noon "first" "bob" none none

/-- Ann's second invite is stored before bob accepts the first one. -/
def oneAfterTheOther : List PairingEvent :=
  .call invitesAgain :: List.replicate 3 (.resume 0 ()) ++
    .call acceptsFirst :: List.replicate 6 (.resume 0 ())

/-- Ann's second invite is stored while bob accepts the first one. -/
def overlapping : List PairingEvent :=
  .call acceptsFirst :: .call invitesAgain :: List.replicate 3 (.resume 1 ()) ++
    List.replicate 6 (.resume 0 ())

theorem keepsLedger_of_writesBackLoaded_annsInvite : ∃ s,
    run Pairing.step (Lib.Isolate.start annsInvite) oneAfterTheOther = some s ∧ s.accepts "first" = 1 ∧
      s.finished.length = 2 ∧ KeepsLedger s := by
  have hkeeps : Always Pairing.step KeepsLedger (Lib.Isolate.start annsInvite) oneAfterTheOther :=
    keepsLedger_of_writesBackLoaded (by decide) (by decide +kernel) (by decide +kernel)
  have hrun : (run Pairing.step (Lib.Isolate.start annsInvite) oneAfterTheOther).map
      (fun s => (s.accepts "first", s.finished.length)) = some (1, 2) := by decide +kernel
  obtain ⟨s, hs, hcounts⟩ := Option.map_eq_some_iff.mp hrun
  obtain ⟨haccepts, hfinished⟩ := Prod.mk.inj hcounts
  exact ⟨s, hs, haccepts, hfinished, hkeeps.last hs⟩

/-- The ledger that bob's call has loaded is written back without ann's second invite. -/
theorem not_keepsLedger : ¬∀ (start : App) (events : List PairingEvent),
    (start.invites.map (·.token)).Nodup →
      EachStep Pairing.step (NewTokens start) (Lib.Isolate.start start) events →
        Always Pairing.step KeepsLedger (Lib.Isolate.start start) events := by
  intro hall
  have hkeeps := hall annsInvite overlapping (by decide) (by decide +kernel)
  have hrun : (run Pairing.step (Lib.Isolate.start annsInvite) overlapping).map
      (fun s => (s.finished, s.state.invites)) =
        some ([(invitesAgain, .ok (.link ⟨"second", "p", "ann"⟩)), (acceptsFirst, .ok .accepted)],
          [⟨"first", "p", "ann", none, 0, true⟩]) := by decide +kernel
  obtain ⟨s, hs, hends⟩ := Option.map_eq_some_iff.mp hrun
  obtain ⟨hfinished, hinvites⟩ := Prod.mk.inj hends
  obtain ⟨stored, hstored, hinvite⟩ := (hkeeps.last hs).created "second" noon "ann" "p" none
    (.link ⟨"second", "p", "ann"⟩) (by rw [hfinished]; exact List.mem_cons_self)
  rw [hinvites, List.mem_singleton] at hstored
  obtain rfl := hstored
  exact absurd hinvite (by decide)

end Pairing

end Duet
