import Sceau.Enroll.Permits

/-!
# The authorization gate

A request reaches the TPM only through the gate: it obtained a permit, its leaf certificate names a
node, and a lookup of that Node succeeded. `Authorized` is that history, read off the run; `Waiting`
lists everything a handler can be before it, and in none of those does it issue a TPM command. One
invariant — every handler is waiting or has been authorized — gives both halves.
-/

set_option autoImplicit false

namespace Sceau

open Lib

/-! ## Who a request comes from

The node's name is what follows "system:node:" in the certificate's CommonName. The source goes
through the certificates, the parser and the prefix one by one, with an error for each; all of it
comes down to one equation, for a name that is not empty. -/

/-- The first Subject CommonName of the leaf certificate. -/
def leafCommonName (P : Platform) (request : Request) : Option String :=
  request.peerCerts.bind fun certs => certs.head?.bind fun leaf =>
    (P.parseX509 leaf).bind fun commonNames => commonNames.head?.bind id

theorem stripPrefix_eq_some {s p r : String} : stripPrefix s p = some r ↔ s = p ++ r := by
  unfold stripPrefix
  constructor
  · intro h
    split at h
    · rename_i hpre
      obtain ⟨rest, hrest⟩ := List.isPrefixOf_iff_prefix.mp hpre
      rw [← hrest, List.drop_left, Option.some.injEq] at h
      rw [← String.ofList_toList (s := s), ← hrest, ← h, String.ofList_append, String.ofList_toList]
    · cases h
  · intro h
    subst h
    rw [if_pos]
    · simp
    · simp

theorem nodeNameFromCn_eq_ok {cn n : String} :
    nodeNameFromCn cn = .ok n ↔ cn = "system:node:" ++ n ∧ n ≠ "" := by
  unfold nodeNameFromCn
  constructor
  · intro h
    split at h
    · cases h
    · rename_i name hname
      split at h
      · cases h
      · rename_i hne
        cases h
        exact ⟨stripPrefix_eq_some.mp hname, hne⟩
  · intro h
    have hstrip : stripPrefix cn nodeIdentityPrefix = some n := stripPrefix_eq_some.mpr h.1
    rw [hstrip]
    simp [h.2]

/-- The node a handler looks up is the one the certificate names. -/
theorem requestedNode_eq_ok {P : Platform} {request : Request} {n : String} :
    EnrollService.requestedNode P request = .ok n ↔
      leafCommonName P request = some ("system:node:" ++ n) ∧ n ≠ "" := by
  unfold EnrollService.requestedNode leafCommonName peerCertCommonName commonNameFromX509
  cases hcerts : request.peerCerts with
  | none => simp
  | some certs =>
    cases hleaf : certs.head? with
    | none => simp [hleaf]
    | some leaf =>
      cases hparse : P.parseX509 leaf with
      | none => simp [hleaf, hparse]
      | some commonNames =>
        rcases hcn : commonNames.head? with _ | _ | cn
        · simp [hleaf, hparse, hcn]
        · simp [hleaf, hparse, hcn]
        · have hname : nodeNameFromCn cn = .ok n ↔ cn = "system:node:" ++ n ∧ n ≠ "" :=
            nodeNameFromCn_eq_ok
          cases hn : nodeNameFromCn cn with
          | error e =>
            rw [hn] at hname
            simpa [hleaf, hparse, hcn, hn] using hname
          | ok name =>
            rw [hn] at hname
            simpa [hleaf, hparse, hcn, hn] using hname

/-! ## Before the gate

Everything a handler can be until a lookup has succeeded for it. Its log is short by then: the permit
it asked for, perhaps a lookup that failed, and the permit given back. -/

section Gate

variable (P : Platform) (service : EnrollService)

/-- What a handler can be before a lookup has succeeded for it. -/
inductive Waiting : EnrollTask → Prop
  | fresh (who : Request) : Waiting { who, prog := service.duplicate P who }
  | bounced (who : Request) :
    Waiting { who, prog := .call .fetchAdd fun _ => .ret (.error maxReached),
              log := [⟨.fetchSub, (0 : UInt64)⟩] }
  | rejected (who : Request) :
    Waiting { who, prog := .ret (.error maxReached),
              log := [⟨.fetchSub, (0 : UInt64)⟩, ⟨.fetchAdd, ()⟩] }
  | asking (who : Request) {k : UInt64} (hk : k ≠ 0) {n : String}
    (hn : EnrollService.requestedNode P who = .ok n) (dropped : Bool) :
    Waiting { who, prog := (service.handleDuplicate P who).run.bind (EnrollService.settle (k = 1)),
              log := [⟨.fetchSub, k⟩], dropped }
  | refusing (who : Request) (st : Status) {log : List (Event Cmd Cmd.Res)} (hlen : log.length ≤ 2)
    (hlog : ∀ ctx c, ∀ ev ∈ log, ev.1 ≠ .tpm ctx c) :
    Waiting { who, prog := .call .fetchAdd fun _ => .ret (.error st), log }
  | refused (who : Request) (st : Status) {log : List (Event Cmd Cmd.Res)} (hlen : log.length ≤ 3)
    (hlog : ∀ ctx c, ∀ ev ∈ log, ev.1 ≠ .tpm ctx c) :
    Waiting { who, prog := .ret (.error st), log }

/-- The history that lets a request through: handler `i` had obtained a permit and was about to look
up Node `n`; the lookup succeeded, and at that instant Node `n` existed. -/
def Authorized (start : EnrollPool) (acts : List EnrollAct) (i : Nat) (n : String) : Prop :=
  ∃ (past : List EnrollAct) (e : Choice) (rest : List EnrollAct) (before : EnrollPool)
    (t : EnrollTask) (k : UInt64),
    acts = past ++ .step i e :: rest ∧
    runs (enrollSystem P service).step start past = some before ∧
    before.tasks[i]? = some t ∧ t.log = [⟨.fetchSub, k⟩] ∧ k ≠ 0 ∧
    t.next? = some (.getNode n) ∧
    enrollDevice P (.getNode n) before.shared e = some (.ok (), before.shared) ∧
    n ∈ before.shared.nodes

variable {P service} {start : EnrollPool} {acts : List EnrollAct} {i : Nat} {n : String}
  {t : EnrollTask}

theorem Authorized.snoc (h : Authorized P service start acts i n) (act : EnrollAct) :
    Authorized P service start (acts ++ [act]) i n := by
  obtain ⟨past, e, rest, before, t, k, rfl, hrest⟩ := h
  exact ⟨past, e, rest ++ [act], before, t, k, by simp, hrest⟩

/-- A handler that asks for Node `n`, as a program. -/
theorem asking_eq {who : Request} {last : Bool} (hn : EnrollService.requestedNode P who = .ok n) :
    (service.handleDuplicate P who).run.bind (EnrollService.settle last) =
      .call (.getNode n) fun r =>
        match r with
        | .ok () => (service.serveDuplicate P who).run.bind (EnrollService.settle last)
        | .error () => .call .fetchAdd fun _ =>
            .ret (.error (denied (.authz (.unknownNode n)))) := by
  rw [handleDuplicate_eq, hn]
  simp only [Prog.call_bind]
  congr 1
  funext r
  rcases r with ⟨⟩ | ⟨⟩ <;> rfl

/-- The commands a handler issues before the gate. -/
def Cmd.beforeGate : Cmd → Prop
  | .fetchSub | .fetchAdd | .getNode _ => True
  | _ => False

/-- **Before the gate a handler does nothing with the TPM**: it has issued at most three commands,
none of them the TPM's, its next command is not the TPM's, and all it can end in is an error. -/
structure Harmless (t : EnrollTask) : Prop where
  short : t.log.length ≤ 3
  log : ∀ ctx c, ∀ ev ∈ t.log, ev.1 ≠ .tpm ctx c
  next : ∀ c, t.next? = some c → c.beforeGate
  result : ∀ a, t.result? = some a → ∃ st, a = .error st

theorem Waiting.harmless (h : Waiting P service t) : Harmless t := by
  cases h with
  | fresh who =>
    refine ⟨by simp, by simp, fun c hc => ?_, fun a ha => by cases ha⟩
    cases Option.some.inj hc
    trivial
  | bounced who =>
    refine ⟨by simp, by simp, fun c hc => ?_, fun a ha => by cases ha⟩
    cases Option.some.inj hc
    trivial
  | rejected who =>
    refine ⟨by simp, by simp, fun c hc => (by cases hc), fun a ha => ?_⟩
    exact ⟨_, (Option.some.inj ha).symm⟩
  | asking who hk hn dropped =>
    rw [asking_eq hn]
    cases dropped with
    | true => exact ⟨by simp, by simp, fun c hc => (by cases hc), fun a ha => by cases ha⟩
    | false =>
      refine ⟨by simp, by simp, fun c hc => ?_, fun a ha => by cases ha⟩
      cases Option.some.inj hc
      trivial
  | refusing who st hlen hlog =>
    refine ⟨Nat.le_succ_of_le hlen, hlog, fun c hc => ?_, fun a ha => by cases ha⟩
    cases Option.some.inj hc
    trivial
  | refused who st hlen hlog =>
    exact ⟨hlen, hlog, fun c hc => (by cases hc), fun a ha => ⟨_, (Option.some.inj ha).symm⟩⟩

/-- One command of a waiting handler: it goes on waiting, or this was the successful lookup. -/
theorem Waiting.step {who : Request} {c : Cmd} {k : c.Res → Code Answer}
    {log : List (Event Cmd Cmd.Res)} (h : Waiting P service { who, prog := .call c k, log })
    (r : c.Res) :
    Waiting P service { who, prog := k r, log := log ++ [⟨c, r⟩] } ∨
      ∃ (n : String) (permits : UInt64), EnrollService.requestedNode P who = .ok n ∧
        log = [⟨.fetchSub, permits⟩] ∧ permits ≠ 0 ∧
        (⟨c, r⟩ : Event Cmd Cmd.Res) = ⟨.getNode n, .ok ()⟩ := by
  generalize ht : ({ who, prog := .call c k, log } : EnrollTask) = t at h
  cases h with
  | fresh who =>
    rw [duplicate_eq] at ht
    cases ht
    refine .inl ?_
    by_cases hr : r = 0
    · subst hr
      exact .bounced who
    · simp only [hr, if_false]
      cases hn : EnrollService.requestedNode P who with
      | ok n => exact .asking who hr hn false
      | error st =>
        rw [handleDuplicate_eq, hn]
        exact .refusing who st (by simp) (by simp)
  | bounced who =>
    cases ht
    exact .inl (.rejected who)
  | rejected who => cases ht
  | asking who hk hn dropped =>
    rename_i permits n
    rw [asking_eq hn] at ht
    cases ht
    rcases r with ⟨⟩ | ⟨⟩
    · exact .inl (.refusing who _ (by simp) (by simp))
    · exact .inr ⟨n, permits, hn, rfl, hk, rfl⟩
  | refusing who st hlen hlog =>
    cases ht
    refine .inl (.refused who st ?_ ?_)
    · rw [List.length_append, List.length_singleton]
      exact Nat.succ_le_succ hlen
    intro ctx c ev hev
    rcases List.mem_append.mp hev with hev | hev
    · exact hlog ctx c ev hev
    · rw [List.mem_singleton.mp hev]
      simp
  | refused who st hlen hlog => cases ht

theorem Waiting.cancel {who : Request} {c : Cmd} {k : c.Res → Code Answer}
    {log : List (Event Cmd Cmd.Res)} (h : Waiting P service { who, prog := .call c k, log })
    (ha : awaits c = true) : Waiting P service { who, prog := .call c k, log, dropped := true } := by
  generalize ht : ({ who, prog := .call c k, log } : EnrollTask) = t at h
  cases h with
  | fresh who =>
    rw [duplicate_eq] at ht
    cases ht
    cases ha
  | bounced who =>
    cases ht
    cases ha
  | rejected who => cases ht
  | asking who hk hn dropped =>
    rename_i permits n
    have hasking : Waiting P service { who, prog := _, log := [⟨.fetchSub, permits⟩], dropped := true } :=
      .asking who hk hn true
    rw [asking_eq hn] at ht hasking
    cases ht
    exact hasking
  | refusing who st hlen hlog =>
    cases ht
    cases ha
  | refused who st hlen hlog => cases ht

/-! ## The invariant

A handler leaves `Waiting` by one command only, the lookup that succeeds, and the Node exists at that
moment. Whether it exists later does not matter, and the source does not ask again. -/

theorem enrollDevice_getNode_ok {s s' : EnrollState} {e : Choice}
    (h : enrollDevice P (.getNode n) s e = some (.ok (), s')) : n ∈ s.nodes ∧ s' = s := by
  cases e with
  | io succeeds =>
    simp only [enrollDevice] at h
    split at h
    · split at h
      · rename_i hmem
        simp only [Option.some.injEq, Prod.mk.injEq, true_and] at h
        exact ⟨hmem, h.symm⟩
      · cases h
    · cases h
  | _ => cases h

/-- Every handler is waiting, or the gate has let it through. -/
def Gated (P : Platform) (service : EnrollService) (start : EnrollPool) (acts : List EnrollAct)
    (pool : EnrollPool) : Prop :=
  ∀ (i : Nat) (t : EnrollTask), pool.tasks[i]? = some t → Waiting P service t ∨
    ∃ n, EnrollService.requestedNode P t.who = .ok n ∧ Authorized P service start acts i n

theorem Gated.step {pool pool' : EnrollPool} {act : EnrollAct}
    (hr : runs (enrollSystem P service).step start acts = some pool)
    (h : Gated P service start acts pool)
    (hstep : (enrollSystem P service).step pool act = some pool') :
    Gated P service start (acts ++ [act]) pool' := by
  -- a handler the action does not touch keeps its standing
  have hkeep : ∀ (j : Nat) (u : EnrollTask), pool.tasks[j]? = some u → Waiting P service u ∨
      ∃ n, EnrollService.requestedNode P u.who = .ok n ∧
        Authorized P service start (acts ++ [act]) j n := by
    intro j u hj
    rcases h j u hj with hw | ⟨n, hn, hauth⟩
    · exact .inl hw
    · exact .inr ⟨n, hn, hauth.snoc act⟩
  cases act with
  | spawn who =>
    simp only [System.step, Option.some.injEq] at hstep
    subst hstep
    intro j u hj
    rcases Nat.lt_or_ge j pool.tasks.length with hlt | hge
    · rw [List.getElem?_append_left hlt] at hj
      exact hkeep j u hj
    · rw [List.getElem?_append_right hge] at hj
      have hu := List.mem_of_getElem? hj
      rw [List.mem_singleton.mp hu]
      exact .inl (.fresh who)
  | env nodes =>
    simp only [System.step, enrollSystem, Option.map_some, Option.some.injEq] at hstep
    subst hstep
    exact hkeep
  | cancel i =>
    obtain ⟨who, c, k, log, hi, hawait, rfl⟩ := System.step_cancel hstep
    refine forall_set hi hkeep ?_
    rcases hkeep i _ hi with hw | hauth
    · exact .inl (hw.cancel hawait)
    · exact .inr hauth
  | step i e =>
    obtain ⟨who, c, k, log, r, s', hi, hd, rfl⟩ := System.step_task hstep
    refine forall_set hi hkeep ?_
    rcases hkeep i _ hi with hw | hauth
    · rcases hw.step r with hw' | ⟨n, permits, hn, rfl, hpos, hev⟩
      · exact .inl hw'
      · cases hev
        obtain ⟨hmem, rfl⟩ := enrollDevice_getNode_ok hd
        exact .inr ⟨n, hn, acts, e, [], pool, _, permits, rfl, hr, hi, rfl, hpos, rfl, hd, hmem⟩
    · exact .inr hauth

/-- A command before the gate can always be answered. -/
theorem beforeGate_enabled {c : Cmd} (h : c.beforeGate) (s : EnrollState) :
    ∃ r s', enrollDevice P c s (.io false) = some (r, s') := by
  cases c with
  | fetchSub => exact ⟨_, _, rfl⟩
  | fetchAdd => exact ⟨_, _, rfl⟩
  | getNode n => exact ⟨.error (), s, rfl⟩
  | _ => exact h.elim

theorem step_enabled {pool : EnrollPool} {c : Cmd} (hi : pool.tasks[i]? = some t)
    (hc : t.next? = some c) (hg : c.beforeGate) :
    ∃ e pool', (enrollSystem P service).step pool (.step i e) = some pool' := by
  obtain ⟨who, prog, log, dropped⟩ := t
  cases dropped with
  | true => cases hc
  | false =>
    cases prog with
    | ret a => cases hc
    | call c' k =>
      cases Option.some.inj hc
      obtain ⟨r, s', hd⟩ := beforeGate_enabled (P := P) hg pool.shared
      exact ⟨.io false, _, System.step_of_dev hi hd⟩

end Gate

/-! ## The gate -/

/-- **The enrollment authorization gate.** In every run of the window, for every handler: it issues a
TPM command — `TPM2_Duplicate` or any other — only after it obtained a permit and a lookup of Node
`n` succeeded while Node `n` existed, where the first CommonName of its leaf certificate is
"system:node:" and the non-empty `n`. And where that has not happened, no TPM command was issued for
it, all it can have ended in is an error, and it is at most three of its own commands, each of which
can be answered, from there. -/
theorem duplicate_gate (P : Platform) (service : EnrollService) (max : UInt32) (machine : Machine)
    (nodes : List String) (acts : List EnrollAct) (pool : EnrollPool)
    (hr : runs (enrollSystem P service).step (EnrollPool.start max machine nodes) acts = some pool)
    (i : Nat) (t : EnrollTask) (hi : pool.tasks[i]? = some t) :
    ((∃ ctx c, t.next? = some (.tpm ctx c) ∨ ∃ ev ∈ t.log, ev.1 = .tpm ctx c) →
      ∃ n, leafCommonName P t.who = some ("system:node:" ++ n) ∧ n ≠ "" ∧
        Authorized P service (EnrollPool.start max machine nodes) acts i n) ∧
    ((¬ ∃ n, leafCommonName P t.who = some ("system:node:" ++ n) ∧ n ≠ "" ∧
        Authorized P service (EnrollPool.start max machine nodes) acts i n) →
      (∀ ctx c, ∀ ev ∈ t.log, ev.1 ≠ .tpm ctx c) ∧
      (∀ a, t.result? = some a → ∃ st, a = .error st) ∧
      t.log.length ≤ 3 ∧
      (t.inFlight = true → ∃ e pool', (enrollSystem P service).step pool (.step i e) = some pool')) := by
  have hgated : Gated P service (EnrollPool.start max machine nodes) acts pool := by
    refine runs_invariant_past ?_ ?_ along_true hr
    · exact fun j u hj => by simp [EnrollPool.start] at hj
    · exact fun past s a s' hpast h _ hstep => h.step hpast hstep
  have hname : ∀ n, EnrollService.requestedNode P t.who = .ok n ∧
      Authorized P service (EnrollPool.start max machine nodes) acts i n →
      leafCommonName P t.who = some ("system:node:" ++ n) ∧ n ≠ "" ∧
        Authorized P service (EnrollPool.start max machine nodes) acts i n := by
    intro n hn
    obtain ⟨hcn, hne⟩ := requestedNode_eq_ok.mp hn.1
    exact ⟨hcn, hne, hn.2⟩
  rcases hgated i t hi with hw | ⟨n, hn⟩
  · have hharm := hw.harmless
    refine ⟨?_, fun _ => ⟨hharm.log, hharm.result, hharm.short, ?_⟩⟩
    · intro htpm
      obtain ⟨ctx, c, hnext | ⟨ev, hev, htpm⟩⟩ := htpm
      · exact (hharm.next _ hnext).elim
      · exact absurd htpm (hharm.log ctx c ev hev)
    · intro hfly
      obtain ⟨c, hc⟩ := Option.isSome_iff_exists.mp hfly
      exact step_enabled hi hc (hharm.next c hc)
  · exact ⟨fun _ => ⟨n, hname n hn⟩, fun hno => absurd ⟨n, hname n hn⟩ hno⟩

/-- A member of the cluster, one command away from its first TPM command. -/
theorem duplicate_gate_member :
    ∃ (pool : EnrollPool) (t : EnrollTask),
      runs (enrollSystem .plain seedService).step (EnrollPool.start 1 keyedMachine ["a"])
        [.spawn memberRequest, .step 0 (.io true), .step 0 (.io true), .step 0 (.io true)] =
          some pool ∧
      pool.tasks[0]? = some t ∧ (∃ ctx c, t.next? = some (.tpm ctx c)) ∧
      ∃ n, leafCommonName .plain t.who = some ("system:node:" ++ n) ∧ n ≠ "" ∧
        Authorized .plain seedService (EnrollPool.start 1 keyedMachine ["a"])
          [.spawn memberRequest, .step 0 (.io true), .step 0 (.io true), .step 0 (.io true)] 0 n := by
  obtain ⟨pool, t, hr, hi, ctx, c, hnext⟩ : ∃ (pool : EnrollPool) (t : EnrollTask),
      runs (enrollSystem .plain seedService).step (EnrollPool.start 1 keyedMachine ["a"])
        [.spawn memberRequest, .step 0 (.io true), .step 0 (.io true), .step 0 (.io true)] =
          some pool ∧
      pool.tasks[0]? = some t ∧ ∃ ctx c, t.next? = some (.tpm ctx c) :=
    ⟨_, _, rfl, rfl, _, _, rfl⟩
  exact ⟨pool, t, hr, hi, ⟨ctx, c, hnext⟩,
    (duplicate_gate .plain seedService 1 keyedMachine ["a"] _ pool hr 0 t hi).1
      ⟨ctx, c, .inl hnext⟩⟩

end Sceau
