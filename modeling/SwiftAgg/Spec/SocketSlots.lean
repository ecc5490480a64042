import SwiftAgg.Native.Transport

/-!
# Slots of the socket table

The counter of the socket table is the index of the next entry, and closing
does not turn it back. So it counts the open descriptors and, on top of them,
every open descriptor that was ever closed; once those are four, no socket can
be created any more.

## Key results

- `step_count` / `run_count`: the counter after a call and after a run
- `transportCreateSocket_exhausted`: four closed descriptors use up the table
- `sound_run_iff`: in which runs the table stays sound
-/

namespace SwiftAgg.Native.SocketTable

variable {t : SocketTable} {c : SocketCall}

/-! ## Open descriptors -/

/-- The number of entries that hold a descriptor. -/
def openCount (t : SocketTable) : Nat := t.sockets.countP (· ≠ -1)

theorem openCount_transportInit : transportInit.openCount = 0 := rfl

/-- A descriptor is stored in a free entry. -/
theorem openCount_record {sock : Int} (h : t.socketCount.toNat < maxSockets) (hsock : sock ≠ -1) :
    (t.record sock h).openCount = t.openCount + 1 := by
  have hlt : t.socketCount.toNat < t.sockets.length := t.length_eq ▸ h
  have hfree : t.sockets[t.socketCount.toNat] = -1 := by
    have hget := t.free_from _ le_rfl h
    rwa [List.getElem?_eq_getElem hlt, Option.some.injEq] at hget
  show (t.sockets.set t.socketCount.toNat sock).countP (· ≠ -1) = _
  rw [List.countP_set hlt, hfree, openCount]
  simp [hsock]

/-- Clearing an entry closes the descriptor that it holds, if it holds one. -/
theorem openCount_clear {i : Nat} {fd : Int} (h : t.sockets[i]? = some fd) :
    (t.clear i).openCount + (if fd ≠ -1 then 1 else 0) = t.openCount := by
  obtain ⟨hlt, hget⟩ := List.getElem?_eq_some_iff.mp h
  have hpos : (if fd ≠ -1 then 1 else 0) ≤ t.openCount := by
    split
    · rename_i hfd
      exact List.countP_pos_iff.mpr ⟨fd, List.mem_of_getElem? h, by simpa using hfd⟩
    · exact Nat.zero_le _
  have hset : (t.clear i).openCount = t.openCount - (if fd ≠ -1 then 1 else 0) := by
    show (t.sockets.set i (-1)).countP (· ≠ -1) = _
    rw [List.countP_set hlt, hget, openCount]
    simp
  omega

/-! ## Calls -/

/-- The call closes a descriptor of the table; a free entry can be closed as well. -/
def ClosesOpen (t : SocketTable) : SocketCall → Prop
  | .close sockFd => sockFd ≠ -1 ∧ sockFd ∈ t.sockets
  | _ => False

instance (t : SocketTable) : (c : SocketCall) → Decidable (t.ClosesOpen c)
  | .close _ => inferInstanceAs (Decidable (_ ∧ _))
  | .createSocket _ _ => inferInstanceAs (Decidable False)
  | .accept _ => inferInstanceAs (Decidable False)

theorem transportCreateSocket_cases (t : SocketTable) (opened : Opened) (validIp : Bool) :
    (∃ h, 0 ≤ opened.fd ∧
      (t.transportCreateSocket opened validIp).2.2 = t.record opened.fd h) ∨
      (t.transportCreateSocket opened validIp).2.2 = t := by
  rw [transportCreateSocket]
  by_cases hroom : t.socketCount.toNat < maxSockets
  · rw [dif_pos hroom]
    split_ifs with hfd hnonblocking hip
    · exact .inr rfl
    · exact .inl ⟨hroom, not_lt.mp hfd, rfl⟩
    · exact .inr rfl
    · exact .inr rfl
  · rw [dif_neg hroom]
    exact .inr rfl

theorem transportAccept_cases (t : SocketTable) (opened : Opened) :
    (∃ h, 0 ≤ opened.fd ∧ (t.transportAccept opened).2.2 = t.record opened.fd h) ∨
      (t.transportAccept opened).2.2 = t := by
  rw [transportAccept]
  by_cases hroom : t.socketCount.toNat < maxSockets
  · rw [dif_pos hroom]
    split_ifs with hfd hblock hnonblocking
    · exact .inr rfl
    · exact .inr rfl
    · exact .inl ⟨hroom, not_lt.mp hfd, rfl⟩
    · exact .inr rfl
  · rw [dif_neg hroom]
    split_ifs <;> exact .inr rfl

theorem transportClose_cases (t : SocketTable) (sockFd : Int) :
    (∃ i, t.sockets[i]? = some sockFd ∧ (t.transportClose sockFd).2 = t.clear i) ∨
      sockFd ∉ t.sockets ∧ (t.transportClose sockFd).2 = t := by
  rw [transportClose]
  cases hfind : t.sockets.findIdx? (· = sockFd) with
  | some i =>
    obtain ⟨hlt, hget, -⟩ := List.findIdx?_eq_some_iff_getElem.mp hfind
    refine .inl ⟨i, ?_, rfl⟩
    rw [List.getElem?_eq_getElem hlt, of_decide_eq_true hget]
  | none =>
    refine .inr ⟨fun hmem => ?_, rfl⟩
    have habsent := List.findIdx?_eq_none_iff.mp hfind sockFd hmem
    simp at habsent

/-- What a call does: it stores a descriptor, clears the entry that holds one, or does nothing. -/
theorem step_cases (t : SocketTable) (c : SocketCall) :
    (∃ sock h, 0 ≤ sock ∧ t.step c = t.record sock h ∧ ¬t.ClosesOpen c) ∨
      (∃ i sockFd, c = .close sockFd ∧ t.sockets[i]? = some sockFd ∧ t.step c = t.clear i) ∨
      t.step c = t ∧ ¬t.ClosesOpen c := by
  cases c with
  | createSocket opened validIp =>
    obtain ⟨h, hfd, hstep⟩ | hstep := t.transportCreateSocket_cases opened validIp
    · exact .inl ⟨_, h, hfd, hstep, id⟩
    · exact .inr (.inr ⟨hstep, id⟩)
  | accept opened =>
    obtain ⟨h, hfd, hstep⟩ | hstep := t.transportAccept_cases opened
    · exact .inl ⟨_, h, hfd, hstep, id⟩
    · exact .inr (.inr ⟨hstep, id⟩)
  | close sockFd =>
    obtain ⟨i, hget, hstep⟩ | ⟨habsent, hstep⟩ := t.transportClose_cases sockFd
    · exact .inr (.inl ⟨i, sockFd, rfl, hget, hstep⟩)
    · exact .inr (.inr ⟨hstep, fun hcloses => habsent hcloses.2⟩)

/-- A call moves the counter as it moves the number of open descriptors, except that the counter
    does not see an open descriptor being closed. -/
theorem step_count (t : SocketTable) (c : SocketCall) :
    (t.step c).socketCount.toNat + t.openCount =
      t.socketCount.toNat + (t.step c).openCount + if t.ClosesOpen c then 1 else 0 := by
  obtain ⟨sock, h, hsock, hstep, hnot⟩ | ⟨i, sockFd, rfl, hget, hstep⟩ | ⟨hstep, hnot⟩ :=
    t.step_cases c
  · have hcount : (t.record sock h).socketCount.toNat = t.socketCount.toNat + 1 :=
      toNat_succ_socketCount h
    rw [hstep, hcount, openCount_record h (by omega), if_neg hnot]
    omega
  · have hcloses : t.ClosesOpen (.close sockFd) ↔ sockFd ≠ -1 :=
      and_iff_left (List.mem_of_getElem? hget)
    have hclear := openCount_clear hget
    have hcount : (t.clear i).socketCount = t.socketCount := rfl
    rw [hstep, hcount, if_congr hcloses rfl rfl]
    omega
  · rw [hstep, if_neg hnot, Nat.add_zero]

/-! ## Runs -/

/-- The number of calls of a run that close an open descriptor. -/
def closes (t : SocketTable) : List SocketCall → Nat
  | [] => 0
  | c :: calls => (if t.ClosesOpen c then 1 else 0) + (t.step c).closes calls

/-- The counter after a run: open descriptors and descriptors that were closed. -/
theorem run_count (t : SocketTable) (calls : List SocketCall) :
    (t.run calls).socketCount.toNat + t.openCount =
      t.socketCount.toNat + (t.run calls).openCount + t.closes calls := by
  induction calls generalizing t with
  | nil => exact (Nat.add_zero _).symm
  | cons c calls ih =>
    have hstep := t.step_count c
    have hrun := ih (t.step c)
    show ((t.step c).run calls).socketCount.toNat + t.openCount = t.socketCount.toNat +
      ((t.step c).run calls).openCount + ((if t.ClosesOpen c then 1 else 0) +
        (t.step c).closes calls)
    omega

theorem run_concat (t : SocketTable) (calls : List SocketCall) (c : SocketCall) :
    t.run (calls ++ [c]) = (t.run calls).step c :=
  List.foldl_concat ..

/-- Creating a socket succeeds exactly if the counter leaves room and the system calls succeed. -/
theorem transportCreateSocket_success_iff (t : SocketTable) (opened : Opened) (validIp : Bool) :
    (t.transportCreateSocket opened validIp).1 = .success ↔
      t.socketCount.toNat < maxSockets ∧ 0 ≤ opened.fd ∧ opened.nonblocking = true ∧
        validIp = true := by
  rw [transportCreateSocket]
  split_ifs with hroom hfd hnonblocking hip <;> simp_all

/-- Four closed descriptors use up the table, whether entries of it are open or not. -/
theorem transportCreateSocket_exhausted {calls : List SocketCall}
    (h : maxSockets ≤ transportInit.closes calls) (opened : Opened) (validIp : Bool) :
    ((transportInit.run calls).transportCreateSocket opened validIp).1 ≠ .success := by
  intro hsuccess
  have hroom := ((transportCreateSocket_success_iff _ opened validIp).mp hsuccess).1
  have hcount := transportInit.run_count calls
  rw [openCount_transportInit] at hcount
  omega

/-- The counter is the number of open descriptors, and while there are fewer than `MAX_SOCKETS`, a
    socket can be created if the system calls succeed and the address is valid. -/
def Sound (t : SocketTable) : Prop :=
  t.socketCount.toNat = t.openCount ∧
    (t.openCount < maxSockets → ∀ opened : Opened, 0 ≤ opened.fd → opened.nonblocking = true →
      (t.transportCreateSocket opened true).1 = .success)

theorem sound_iff (t : SocketTable) : t.Sound ↔ t.socketCount.toNat = t.openCount := by
  refine ⟨And.left, fun hcount => ⟨hcount, fun hroom opened hfd hnonblocking => ?_⟩⟩
  exact (transportCreateSocket_success_iff t opened true).mpr
    ⟨hcount ▸ hroom, hfd, hnonblocking, rfl⟩

/-- Whatever the system calls answer, the table is sound after every call of a run exactly if no
    call of it closes an open descriptor. -/
theorem sound_run_iff (calls : List SocketCall) :
    (∀ pre, pre <+: calls → (transportInit.run pre).Sound) ↔
      ∀ pre c, pre ++ [c] <+: calls → ¬(transportInit.run pre).ClosesOpen c := by
  constructor
  · intro hsound pre c hpre hcloses
    have hbefore := hsound pre ((List.prefix_append pre [c]).trans hpre)
    have hafter := hsound (pre ++ [c]) hpre
    rw [sound_iff] at hbefore hafter
    have hstep := (transportInit.run pre).step_count c
    rw [run_concat] at hafter
    rw [if_pos hcloses] at hstep
    omega
  · intro hnot pre
    induction pre using List.reverseRecOn with
    | nil => exact fun _ => (sound_iff _).mpr rfl
    | append_singleton pre c ih =>
      intro hpre
      have hbefore := ih ((List.prefix_append pre [c]).trans hpre)
      have hstep := (transportInit.run pre).step_count c
      rw [if_neg (hnot pre c hpre)] at hstep
      rw [sound_iff] at hbefore ⊢
      rw [run_concat]
      omega

/-- Descriptor 3 is created and closed four times, and a fifth time is refused. -/
def reconnects : List SocketCall :=
  (List.replicate 4 [.createSocket ⟨3, false, true⟩ true, .close 3]).flatten

/-- The table has no open descriptor then, but its counter is at its end. -/
theorem reconnects_not_sound :
    (transportInit.run reconnects).openCount = 0 ∧
      (transportInit.run reconnects).socketCount = 4 ∧
      ((transportInit.run reconnects).transportCreateSocket ⟨3, false, true⟩ true).1 =
        .errInvalidArgument ∧
      ¬(transportInit.run reconnects).Sound := by
  refine ⟨by decide, by decide, by decide, ?_⟩
  rw [sound_iff]
  decide

end SwiftAgg.Native.SocketTable
