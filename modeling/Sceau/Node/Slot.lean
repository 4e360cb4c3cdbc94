import Sceau.Fleet.Slot
import Sceau.Node.Commands

/-!
# The slot changes only when it is meant to

The two operations that fill the fleet key's slot without being told to overwrite it: a genesis that
is not forced, and a join. Every command may fail, and the seed may answer a join with anything.

Neither is safe because of a check it makes. The probe of a genesis swallows its error, so that a
key may be created although there is one; what protects the slot then is that it cannot be evicted
into. A join deletes and persists without looking, but only once the TPM has imported and loaded
what the seed sent.
-/

set_option autoImplicit false

namespace Sceau

open Lib

/-- The responses a run has received. -/
def responses (tr : List (Event Cmd Cmd.Res)) : List DuplicateResponse :=
  tr.filterMap fun ev =>
    match ev with
    | ⟨.duplicateRpc _, .ok response⟩ => some response
    | _ => none

/-! ## Join -/

/-- Anything but a request to the seed. -/
def Cmd.noRpc : Cmd → Prop
  | .duplicateRpc _ => False
  | _ => True

theorem Cmd.benign.noRpc {c : Cmd} (h : c.benign) : c.noRpc := by
  cases c <;> trivial

theorem responses_append (tr tr' : List (Event Cmd Cmd.Res)) :
    responses (tr ++ tr') = responses tr ++ responses tr' := List.filterMap_append

theorem responses_noRpc {tr : List (Event Cmd Cmd.Res)} (h : ∀ ev ∈ tr, ev.1.noRpc) :
    responses tr = [] := by
  refine List.filterMap_eq_nil_iff.mpr fun ev hev => ?_
  have hno := h ev hev
  obtain ⟨c, r⟩ := ev
  cases c with
  | duplicateRpc request => exact hno.elim
  | _ => rfl

section Join

variable {P : Platform} {faults : TpmCmd → Bool} {m : Machine}

/-- How a join ends: without an eviction and with an error, or with the key of the one response it
has received, imported and loaded, as what it evicts into the slot. -/
def JoinEnds (P : Platform) (tr : List (Event Cmd Cmd.Res)) (r : Except JoinError Unit) : Prop :=
  (evictions tr = [] ∧ ∃ e, r = .error e) ∨
    ∃ response blob, responses tr = [response] ∧ decodeResponse P response = .ok blob ∧
      Fleet.Landed tr blob ∧
      (r = .ok () → ∃ h, Fleet.ReplacesTo (· = blob.fleetKeyPublic) (evictions tr) (.ok h))

theorem joinFinish_ends (join : PendingJoin) (response : DuplicateResponse) :
    (joinFinish P join response).run.wp (nodeDevice P faults)
      (fun tr r _ => (evictions tr = [] ∧ ∃ e, r = .error e) ∨
        ∃ blob, decodeResponse P response = .ok blob ∧ Fleet.Landed tr blob ∧
          (r = .ok () → ∃ h, Fleet.ReplacesTo (· = blob.fleetKeyPublic) (evictions tr) (.ok h)))
      m := by
  unfold joinFinish
  cases hdec : decodeResponse P response with
  | error e => exact .inl ⟨rfl, e, rfl⟩
  | ok blob =>
    show (Prog.mapErr JoinError.fleet (Fleet.importAndPersist join.context join.transportHandle blob)
      >>= fun _ => pure () : Fallible JoinError Unit).run.wp _ _ _
    rw [Prog.wp_run_bind, Prog.wp_mapErr]
    refine Prog.wp_mono ?_ (Fleet.importAndPersist_imports join.transportHandle blob)
    intro tr r m₁ himports
    have hlands := himports.landed
    have hrep := himports.replaces
    cases r with
    | error e =>
      rcases hlands with ⟨hev, -⟩ | hlands
      · exact .inl ⟨hev, _, rfl⟩
      · exact .inr ⟨blob, rfl, hlands, fun hr => by cases hr⟩
    | ok h =>
      rcases hlands with ⟨-, e, he⟩ | hlands
      · cases he
      · refine .inr ⟨blob, rfl, ?_, fun _ => ⟨h, ?_⟩⟩
        · simpa using hlands
        · simpa using hrep

theorem runJoin_ends (seed k0sDataDir : String) :
    (runJoin P seed k0sDataDir).run.wp (nodeDevice P faults) (fun tr r _ => JoinEnds P tr r) m := by
  unfold runJoin
  rw [Prog.wp_run_bind]
  refine Prog.wp_mono ?_ (Prog.wp_and
    (evictions_of_only (joinRequest_only (fun _ => Cmd.benign.slot) P seed k0sDataDir
      (fun _ => trivial) fun _ => trivial))
    ((joinRequest_only (fun _ => Cmd.benign.noRpc) P seed k0sDataDir (fun _ => trivial)
      fun _ => trivial).trace (nodeDevice P faults) m))
  intro tr₁ r₁ m₁ h₁
  obtain ⟨hev₁, hno₁⟩ := h₁
  cases r₁ with
  | error e => exact .inl ⟨hev₁, e, rfl⟩
  | ok join =>
    show (_ >>= _ : Fallible JoinError Unit).run.wp _ _ _
    rw [Prog.wp_run_bind, Prog.wp_run_lift]
    intro e reply m₂ hd
    have hev : ∀ tr, evictions (tr₁ ++ ([⟨.duplicateRpc join.request, reply⟩] ++ tr)) =
        evictions tr := by
      intro tr
      rw [evictions_append, evictions_append, hev₁]
      rfl
    cases reply with
    | error _ => exact .inl ⟨hev [], _, rfl⟩
    | ok response =>
      show (joinFinish P join response).run.wp _ _ _
      have hfinish := (joinFinish_only (fun _ => Cmd.benign.noRpc) P join response
        (fun _ _ _ => trivial) (fun _ _ _ _ _ => trivial) fun _ => trivial).trace
          (nodeDevice P faults) m₂
      refine Prog.wp_mono ?_ (Prog.wp_and (joinFinish_ends join response) hfinish)
      intro tr₂ r₂ m₃ h₂
      obtain ⟨hends, hno₂⟩ := h₂
      rcases hends with ⟨hev₂, he⟩ | ⟨blob, hdec, hlands, hrep⟩
      · exact .inl ⟨(hev tr₂).trans hev₂, he⟩
      · refine .inr ⟨response, blob, ?_, hdec, hlands.mono fun ev hmem => by simp [hmem], ?_⟩
        · rw [responses_append, responses_append, responses_noRpc hno₁, responses_noRpc hno₂]
          rfl
        · intro hr
          obtain ⟨h, hrep⟩ := hrep hr
          refine ⟨h, ?_⟩
          rw [← hev tr₂] at hrep
          exact hrep

end Join

/-- **The slot changes only when it is meant to**, with any commands failing. A genesis that is not
forced leaves an occupied slot as it is, and a slot occupied if it succeeds. A join leaves the slot
alone unless the seed's response decoded and was imported and loaded, and fills it with the key of
that response if it succeeds. -/
theorem slot_changes_as_intended (P : Platform) (m : Machine) :
    (∀ context es r m' tr, (Fleet.createFleetKey context false).run.exec (nodeDevice P anyFault)
        m es = some (r, m', tr) →
      (∀ k, m.tpm.slot = some k → m'.tpm.slot = some k) ∧
      (∀ h, r = .ok h → m'.tpm.slot.isSome = true)) ∧
    ∀ seed k0sDataDir es r m' tr, (runJoin P seed k0sDataDir).run.exec (nodeDevice P anyFault)
        m es = some (r, m', tr) →
      (m'.tpm.slot ≠ m.tpm.slot → ∃ response blob, responses tr = [response] ∧
        decodeResponse P response = .ok blob ∧ response.Carries P blob ∧ Fleet.Landed tr blob) ∧
      (r = .ok () → ∃ response blob, responses tr = [response] ∧
        decodeResponse P response = .ok blob ∧ response.Carries P blob ∧ Fleet.Landed tr blob ∧
          m'.tpm.slot = some blob.fleetKeyPublic) := by
  refine ⟨fun context es r m' tr hrun => ?_, fun seed k0sDataDir es r m' tr hrun => ?_⟩
  · have hslot := Prog.wp_sound (wp_slot _) hrun
    rcases Prog.wp_sound Fleet.createFleetKey_unforced hrun with ⟨k, hev, hk⟩ | hput
    · rw [hev] at hslot
      have hsame : m'.tpm.slot = m.tpm.slot := (Option.some.inj hslot).symm
      exact ⟨fun _ hk' => hsame.trans hk', fun _ _ => by rw [hsame, hk]; rfl⟩
    · refine ⟨fun k hk => ?_, fun h hr => ?_⟩
      · rcases hput with ⟨hev, -⟩ | ⟨id, obj, hev, -⟩
        · rw [hev] at hslot
          exact (Option.some.inj hslot).symm.trans hk
        · -- the key that was created cannot have been evicted into an occupied slot
          rw [hev, hk] at hslot
          cases hslot
      · obtain ⟨pub, -, hpub⟩ := hput.slot hr hslot
        rw [hpub]
        rfl
  · have hslot := Prog.wp_sound (wp_slot _) hrun
    rcases Prog.wp_sound (runJoin_ends seed k0sDataDir) hrun with
      ⟨hev, e, rfl⟩ | ⟨response, blob, hresp, hdec, hlands, hrep⟩
    · rw [hev] at hslot
      exact ⟨fun hne => absurd (Option.some.inj hslot).symm hne, fun hr => by cases hr⟩
    · have hcarries := decodeResponse_eq hdec
      refine ⟨fun _ => ⟨response, blob, hresp, hdec, hcarries, hlands⟩, fun hr => ?_⟩
      obtain ⟨h, hrep⟩ := hrep hr
      obtain ⟨pub, rfl, hpub⟩ := hrep.slot rfl hslot
      exact ⟨response, blob, hresp, hdec, hcarries, hlands, hpub⟩

/-- A response with another key, wrapped by nobody the ledger knows. -/
def otherResponse : DuplicateResponse where
  fleetKeyPublic := [3, 6]
  duplicatePrivate := [7]
  encryptedSecret := [7]
  hasEncryptionKey := false
  encryptionKey := []

/-- The probe of a genesis fails, and `TPM2_EvictControl` refuses what it has created. -/
def probeFails : List Choice :=
  .fail (.rc 0x101) :: List.replicate 11 (performed 5) ++ [.fail (.rc 0x14c), performed 5]

/-- A join in which every command is performed. -/
def joinsOther : List Choice :=
  List.replicate 14 (performed 9) ++
    [.file (some []), .file (some []), .io true, .reply (some otherResponse)] ++
    List.replicate 21 (performed 11)

theorem slot_changes_as_intended_twice :
    (∃ r m' tr, (Fleet.createFleetKey { id := 0 } false).run.exec (nodeDevice .plain anyFault)
        keyedMachine probeFails = some (r, m', tr) ∧ m'.tpm.slot = some someFleetKey) ∧
    ∃ m' tr, (runJoin .plain "seed" "/var/lib/k0s").run.exec (nodeDevice .plain anyFault)
        keyedMachine joinsOther = some (.ok (), m', tr) ∧
      ∃ response blob, responses tr = [response] ∧
        decodeResponse .plain response = .ok blob ∧ response.Carries .plain blob ∧
          Fleet.Landed tr blob ∧
          m'.tpm.slot = some blob.fleetKeyPublic := by
  have hgenesis : ((Fleet.createFleetKey { id := 0 } false).run.exec (nodeDevice .plain anyFault)
      keyedMachine probeFails).isSome = true := by
    decide +kernel
  have hjoin : ((runJoin .plain "seed" "/var/lib/k0s").run.exec (nodeDevice .plain anyFault)
      keyedMachine joinsOther).map (fun x => x.1.toOption) = some (some ()) := by
    decide +kernel
  obtain ⟨⟨r, m', tr⟩, hrun⟩ := Option.isSome_iff_exists.mp hgenesis
  obtain ⟨⟨r₂, m₂, tr₂⟩, hrun₂, hr₂⟩ := Option.map_eq_some_iff.mp hjoin
  have h := slot_changes_as_intended .plain keyedMachine
  refine ⟨⟨r, m', tr, hrun, (h.1 _ _ _ _ _ hrun).1 _ rfl⟩, ?_⟩
  cases r₂ with
  | error e => cases hr₂
  | ok _ => exact ⟨m₂, tr₂, hrun₂, (h.2 _ _ _ _ _ _ hrun₂).2 rfl⟩

end Sceau
