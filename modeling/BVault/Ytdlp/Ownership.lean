import BVault.Ytdlp.Finished

/-!
# Whose jobs are whose

The text of an id has always the same length and no mark of a pattern in it, so
no user's keys begin like another's. A user sees the jobs that were submitted
with its id, and the URLs of those that succeeded.
-/

namespace BVault.Ytdlp

open BVault.Cli (dedupKey ingestYtdlp)
open BVault.Jobs
open BVault.Worker (jobOwnedBy)

variable {maxRetries : Nat} {parseUuid : String → Option UserId}

theorem plain_userId (user : UserId) : Like.Plain Gateway.marks (user.val ++ ":").toList := by
  intro c mem
  rw [String.toList_append] at mem
  have shape := user.property.2
  rw [List.all_eq_true] at shape
  have notMark : c ≠ '%' ∧ c ≠ '_' ∧ c ≠ '\\' := by
    rcases List.mem_append.mp mem with letter | colon
    · have is := shape c letter
      refine ⟨?_, ?_, ?_⟩ <;>
      · rintro rfl
        revert is
        decide
    · obtain rfl : c = ':' := List.mem_singleton.mp colon
      decide
  exact notMark

/-- A key begins with its user's id and a colon, and with no other user's. -/
theorem prefix_dedupKey_iff (user owner : UserId) (url : String) :
    (user.val ++ ":").toList <+: (dedupKey owner.val url).toList ↔ user = owner := by
  have key : (dedupKey owner.val url).toList = (owner.val ++ ":").toList ++ url.toList := by
    rw [dedupKey, String.toList_append]
  rw [key]
  constructor
  · rintro ⟨rest, same⟩
    rw [String.toList_append, String.toList_append, List.append_assoc, List.append_assoc] at same
    have length : user.val.toList.length = owner.val.toList.length := by
      rw [String.length_toList, String.length_toList, user.property.1, owner.property.1]
    exact Subtype.ext (String.toList_inj.mp (List.append_inj same length).1)
  · rintro rfl
    exact List.prefix_append _ _

theorem dedupKey_inj {user owner : UserId} {url url' : String}
    (same : dedupKey user.val url = dedupKey owner.val url') : user = owner ∧ url = url' := by
  have first : user = owner := by
    refine (prefix_dedupKey_iff user owner url').mp ?_
    rw [← same, prefix_dedupKey_iff]
  subst first
  exact ⟨rfl, Cli.dedupKey_injective same⟩

theorem stripPrefix_dedupKey (user : UserId) (url : String) :
    stripPrefix (user.val ++ ":") (dedupKey user.val url) = some url := by
  have key : (dedupKey user.val url).toList = (user.val ++ ":").toList ++ url.toList := by
    rw [dedupKey, String.toList_append]
  have front : (user.val ++ ":").toList.isPrefixOf (dedupKey user.val url).toList = true :=
    List.isPrefixOf_iff_prefix.mpr ((prefix_dedupKey_iff user user url).mpr rfl)
  rw [stripPrefix, if_pos front, key, ← String.length_toList, List.drop_left, String.ofList_toList]

/-- There is a succeeded job of the user for the URL. -/
def Ingested (q : Queue) (user : UserId) (url : String) : Prop :=
  ∃ j ∈ q.jobs, j.kind = .ytDlpIngest ∧ j.status = .succeeded ∧
    j.payload = .ytDlpIngest ⟨url, user.val⟩

theorem mem_completedYtdlp_iff {q : Queue} (kept : Kept q) (user : UserId) (url : String) :
    url ∈ completedYtdlp q user ↔ Ingested q user url := by
  have pattern : (user.val ++ ":" ++ "%").toList = (user.val ++ ":").toList ++ [Gateway.marks.any] :=
    String.toList_append
  simp only [completedYtdlp, completedKeys, List.mem_filterMap, List.mem_map, List.mem_filter,
    Bool.and_eq_true, decide_eq_true_eq, pattern, Like.like_front_iff (plain_userId user),
    List.map_id]
  constructor
  · rintro ⟨_, ⟨j, ⟨mem, ⟨kind, succeeded⟩, front⟩, rfl⟩, stripped⟩
    cases kept.rows j mem with
    | analysis job kind' => cases kind.symm.trans kind'
    | ytdlp owner url' _ payload key left =>
      rw [key, prefix_dedupKey_iff] at front
      subst front
      rw [key, stripPrefix_dedupKey, Option.some.injEq] at stripped
      subst stripped
      exact ⟨j, mem, kind, succeeded, payload⟩
  · rintro ⟨j, mem, kind, succeeded, payload⟩
    cases kept.rows j mem with
    | analysis job kind' => cases kind.symm.trans kind'
    | ytdlp owner url' _ payload' key left =>
      rw [payload, Payload.ytDlpIngest.injEq, YtDlpIngestJob.mk.injEq] at payload'
      obtain ⟨rfl, same⟩ := payload'
      obtain rfl : user = owner := Subtype.ext same
      refine ⟨_, ⟨j, ⟨mem, ⟨kind, succeeded⟩, ?_⟩, rfl⟩, ?_⟩
      · rw [key, prefix_dedupKey_iff]
      · rw [key, stripPrefix_dedupKey]

theorem getJob_eq_ok_iff {q : Queue} (keyed : q.Keyed) {user : UserId} {id : Nat}
    {response : JobStatusResponse} :
    getJob q user id = .ok response ↔ ∃ j ∈ q.jobs, j.id = id ∧ jobOwnedBy j user.val = true ∧
      response = ⟨j.status, j.lastError⟩ := by
  cases found : q.get id with
  | none =>
    simp only [getJob, found, reduceCtorEq, false_iff]
    rintro ⟨j, mem, number, -⟩
    rw [(get_eq_some_iff keyed).mpr ⟨mem, number⟩] at found
    cases found
  | some j =>
    obtain ⟨mem, number⟩ := (get_eq_some_iff keyed).mp found
    simp only [getJob, found]
    constructor
    · intro answered
      split at answered
      · rename_i owned
        cases answered
        exact ⟨j, mem, number, owned, rfl⟩
      · cases answered
    · rintro ⟨j', mem', number', owned, rfl⟩
      obtain rfl := keyed.same_row mem' mem (number'.trans number.symm)
      rw [if_pos owned]

/-- A user's row after one more event was there before, or the user has just been given its id. -/
theorem owned_step {s : System} {e : Event} {j : Job} {user : UserId}
    (mem : j ∈ (step maxRetries parseUuid s e).queue.jobs) (owned : jobOwnedBy j user.val = true) :
    (∃ j₀ ∈ s.queue.jobs, j₀.id = j.id ∧ jobOwnedBy j₀ user.val = true) ∨
      ∃ url now traceparent, e = .submit user url now traceparent ∧
        (ingestYtdlp user.val s.queue now traceparent url).1 = j.id := by
  rcases row_step s mem with before | ⟨op, sends, ⟨j₀, before, rfl⟩ | fresh⟩
  · exact Or.inl ⟨j, before, rfl, owned⟩
  · refine Or.inl ⟨j₀, before, (Queue.effect_id _ _ _).symm, ?_⟩
    rwa [jobOwnedBy, Queue.effect_payload] at owned
  · obtain ⟨now, payload, maxAttempts, tp, op_eq, free, is, -⟩ := Queue.mem_inserted fresh
    refine Or.inr ?_
    cases sent_of_statement sends with
    | submitted owner url now' traceparent =>
      obtain ⟨rfl, kind, key, rfl, -, rfl⟩ := Op.enqueue.inj op_eq
      rw [is, jobOwnedBy, Queue.freshRow, decide_eq_true_eq] at owned
      obtain rfl : user = owner := Subtype.ext (Option.some.inj owned).symm
      refine ⟨url, now', traceparent, rfl, ?_⟩
      rw [← kind, ← key] at free
      rw [ingestYtdlp, Queue.enqueue, free, is]
      rfl
    | claimed now' locked tie => cases op_eq
    | reported _ op_eq' => exact absurd (op_eq'.symm.trans op_eq) reportOp_ne_enqueue
    | delivered _ op_eq' => exact absurd (op_eq'.symm.trans op_eq) reportOp_ne_enqueue
    | analysis on =>
      subst op_eq
      generalize j.kind = kind at on
      cases kind with
      | ytDlpIngest => cases on
      | analysis =>
        cases payload with
        | ytDlpIngest job => cases on
        | analysis job =>
          rw [is] at owned
          cases owned

/-- The id that a submission is answered with is that of a row of its user. -/
theorem submitted_owned {s : System} (kept : Kept s.queue) (user : UserId) (url : String) (now : Nat)
    (traceparent : Option String) :
    ∃ j ∈ (ingestYtdlp user.val s.queue now traceparent url).2.jobs,
      j.id = (ingestYtdlp user.val s.queue now traceparent url).1 ∧ jobOwnedBy j user.val = true := by
  obtain ⟨⟨j, mem, number, kind, key⟩, -⟩ :=
    Cli.ingestYtdlp_spec user.val url kept.indexed now traceparent
  refine ⟨j, mem, number, ?_⟩
  have after : Kept (step 0 (fun _ => none) s (.submit user url now traceparent)).queue :=
    kept_after kept _
  cases after.rows j mem with
  | analysis job kind' => cases kind.symm.trans kind'
  | ytdlp owner url' _ payload key' left =>
    obtain ⟨rfl, rfl⟩ := dedupKey_inj (key.symm.trans key')
    rw [jobOwnedBy, payload]
    exact decide_eq_true rfl

/-- In every run, whatever pods, users and analysis workers do, the gateway tells a user about a job
if and only if it has answered a submission of that user with the id. -/
theorem getJob_iff_submitted (events : List Event) (user : UserId) (id : Nat) :
    (∃ response, getJob (after maxRetries parseUuid events).queue user id = .ok response) ↔
      ∃ pre url now traceparent post, events = pre ++ .submit user url now traceparent :: post ∧
        (ingestYtdlp user.val (after maxRetries parseUuid pre).queue now traceparent url).1 = id := by
  have keyed : (after maxRetries parseUuid events).queue.Keyed :=
    (sound_after events).kept.indexed.keyed
  simp only [getJob_eq_ok_iff keyed]
  constructor
  · rintro ⟨_, j, mem, rfl, owned, -⟩
    clear keyed
    induction events using List.reverseRecOn generalizing j with
    | nil => cases mem
    | append_singleton events e ih =>
      rw [after_snoc] at mem
      rcases owned_step mem owned with
        ⟨j₀, before, same, owned₀⟩ | ⟨url, now, traceparent, rfl, number⟩
      · obtain ⟨pre, url, now, traceparent, post, rfl, number⟩ := ih j₀ before owned₀
        exact ⟨pre, url, now, traceparent, post ++ [e], by rw [List.append_assoc, List.cons_append],
          number.trans same⟩
      · exact ⟨events, url, now, traceparent, [], rfl, number⟩
  · rintro ⟨pre, url, now, traceparent, post, rfl, rfl⟩
    obtain ⟨j, mem, number, owned⟩ :=
      submitted_owned (s := after maxRetries parseUuid pre) (sound_after pre).kept user url now traceparent
    have there : j ∈ (after maxRetries parseUuid (pre ++ [.submit user url now traceparent])).queue.jobs := by
      rw [after_snoc]
      exact mem
    obtain ⟨j', mem', later⟩ := row_stays _ post there
    rw [List.append_assoc, List.singleton_append] at mem'
    refine ⟨_, j', mem', later.columns.id.trans number, ?_, rfl⟩
    rw [jobOwnedBy, later.columns.payload]
    exact owned

end BVault.Ytdlp
