import TransitionNetworks.Session
import TransitionNetworks.Proofs.Run.Order
import Mathlib.Data.List.DropRight

/-! # What observers are told

A run announces the items of its chart, position by position and in stored order, each by its
provenance (`Recognition.announcements`), and then its verdict; an observer is told exactly that
(`Network.notices_eq`).

The results of a parser do not depend on its observer (`Parser.run_eq`). So in a session every reply
is that of a parser without one, the recorder is told what the run behind the request announces, and
it holds what it was told since it was installed (`Network.session_observed`). -/

namespace TransitionNetworks

universe u

/-! ## Runs -/

/-- What is announced of an item found at a place: the rule predicted or completed, or the token
scanned, and nothing of a seed or an epsilon step. -/
def Provenance.announcement? (input : Array Token) (place : Place) : Provenance → Option Notice
  | seed => none
  | epsilon _ => none
  | predict _ rule => some (.predict place.position place.item rule)
  | complete _ _ rule => some (.complete place.position place.item rule)
  | scan _ tokenIndex => input[tokenIndex]?.map (.scan place.position place.item)

/-- What a run announces of the items at each position, in stored order. -/
def Recognition.announcements (recognition : Recognition) : List Notice :=
  (List.range recognition.chart.size).flatMap fun position =>
    (recognition.chart.itemsAt position).toList.filterMap fun item =>
      (recognition.findings.provenance.find? ⟨position, item⟩).bind
        (Provenance.announcement? recognition.input ⟨position, item⟩)

/-- What an observer is told of a legal find is what is announced of it, since the token scanned is
one of the input. -/
theorem Legal.toldOf?_eq {network : Network} {start : Nat} {input : List Token}
    {graph : StackGraph} {place : Place} {why : Provenance}
    (legal : Legal network start input graph place why) :
    Occurrence.toldOf? input.toArray (place, why) = why.announcement? input.toArray place := by
  cases legal with
  | seed => rfl
  | epsilon => rfl
  | predict => rfl
  | complete => rfl
  | scan _ read =>
    simp [Occurrence.toldOf?, Occurrence.noticeOfFind?, Provenance.announcement?, tokenAt, read]

/-- The finds at a position are the items listed there, each with its provenance. -/
theorem Findings.Coherent.filterMap_finds {findings : Findings} (coherent : findings.Coherent)
    {α : Type u} (announce : Place → Provenance → Option α) (position : Nat) :
    ((findings.finds.filter fun find => find.1.position = position).filterMap
      fun find => announce find.1 find.2) =
      (findings.chart.itemsAt position).toList.filterMap fun item =>
        (findings.provenance.find? ⟨position, item⟩).bind (announce ⟨position, item⟩) := by
  rw [coherent.listing, List.filterMap_map]
  refine List.filterMap_congr ?_
  rintro ⟨⟨other, item⟩, why⟩ member
  obtain ⟨found, here⟩ := List.mem_filter.1 member
  obtain rfl : other = position := of_decide_eq_true here
  have recorded := (coherent.find?_eq_some_iff _ _).2 found
  simp [recorded]

/-- **An observer is told what a run announces,** position by position and in stored order, and then
the verdict. -/
theorem Network.notices_eq {network : Network} {startRule : Nat} {tokens : List Token}
    {recognition : Recognition} (ran : network.recognition startRule tokens = .ok recognition) :
    recognition.notices = recognition.announcements ++ [recognition.verdict] := by
  obtain ⟨rule, known, rfl⟩ := exists_rule?_of_recognition ran
  obtain ⟨finished, -⟩ := network.finished_recognitionFrom known tokens
  have inOrder := network.inOrder_recognitionFrom known tokens
  have notices := network.notices_recognitionFrom known tokens
  have input : (network.recognitionFrom startRule rule tokens).input =
    (inputOf tokens).toArray := rfl
  generalize network.recognitionFrom startRule rule tokens = recognition at *
  have coherent := finished.linked.coherent
  have inside : ∀ find ∈ recognition.findings.finds,
      find.1.position < recognition.findings.chart.size := by
    intro find member
    exact (coherent.has_of_mem member).lt_size
  have told : recognition.findings.finds.filterMap (Occurrence.toldOf? recognition.input) =
      recognition.findings.finds.filterMap fun find =>
        find.2.announcement? recognition.input find.1 := by
    rw [input]
    exact List.filterMap_congr fun find member => (finished.linked.legal _ _ member).toldOf?_eq
  rw [notices]
  refine congrArg (· ++ [recognition.verdict]) (told.trans ?_)
  conv_lhs => rw [← flatMap_filter_eq_self inOrder inside]
  rw [List.filterMap_flatMap]
  exact List.flatMap_congr fun position _ => coherent.filterMap_finds
    (fun place why => why.announcement? recognition.input place) position

/-! ## Sessions -/

/-- A parser without an observer. -/
def Parser.unobserved (network : Network) : Parser Unit where
  network
  observe _ _ := ()
  memory := ()

/-- What a run announces and how it ended, and nothing if it cannot begin. -/
def Network.told (network : Network) (startRule : Nat) (tokens : List Token) : List Notice :=
  match network.recognition startRule tokens with
  | .error _ => []
  | .ok recognition => recognition.announcements ++ [recognition.verdict]

namespace Request

/-- The run behind a request, given by its start rule and its tokens, unless the request is for a
new recorder. -/
def run? : Request → Option (Nat × List Token)
  | run startRule tokens => some (startRule, tokens)
  | recognize startRule tokens => some (startRule, tokens)
  | parse startRule tokens => some (startRule, tokens)
  | replaceObserver => none

/-- The reply of a fresh parser without an observer. -/
def freshReply (network : Network) : Request → Reply
  | run startRule tokens =>
    Reply.ofRun .ran ((Parser.unobserved network).run startRule tokens).1
  | recognize startRule tokens =>
    Reply.ofRun .recognized ((Parser.unobserved network).recognize startRule tokens).1
  | parse startRule tokens =>
    Reply.ofParse ((Parser.unobserved network).parse startRule tokens).1
  | replaceObserver => .replaced

/-- What the run behind a request announces. -/
def told (network : Network) (request : Request) : List Notice :=
  match request.run? with
  | some (startRule, tokens) => network.told startRule tokens
  | none => []

/-- What was told since the last request for a new recorder. -/
def recorded (network : Network) (requests : List Request) : List Notice :=
  (requests.rtakeWhile fun request => request.run?.isSome).flatMap (told network)

/-- A recorder that is kept holds what the last request told behind the rest, and a new one holds
nothing. -/
theorem recorded_concat (network : Network) (requests : List Request) (request : Request) :
    recorded network (requests ++ [request]) =
      if request.run?.isSome then recorded network requests ++ request.told network else [] := by
  unfold recorded
  rw [List.rtakeWhile_concat]
  split
  · rw [List.flatMap_append, List.flatMap_singleton]
  · rfl

end Request

namespace Parser

variable {σ : Type u}

/-- Telling notices in two parts is telling them at once. -/
theorem tell_tell (notices later : List Notice) (parser : Parser σ) :
    (parser.tell notices).tell later = parser.tell (notices ++ later) := by
  simp [tell]

/-- A recorder holds what it was told. -/
@[simp] theorem toList_memory_tell_recording (network : Network) (notices : List Notice) :
    ((recording network).tell notices).memory.toList = notices := by
  simp [tell, recording]

/-- **A run does not depend on the observer,** which is told what the run announces. -/
theorem run_eq (parser : Parser σ) (startRule : Nat) (tokens : List Token) :
    parser.run startRule tokens =
      (parser.network.recognition startRule tokens,
        parser.tell (parser.network.told startRule tokens)) := by
  unfold run Network.told
  cases ran : parser.network.recognition startRule tokens with
  | error fault => rfl
  | ok recognition =>
    simp only
    rw [Network.notices_eq ran]

/-- The verdict is that of a parser without an observer, and the observer is told what the run
announces. -/
theorem recognize_eq (parser : Parser σ) (startRule : Nat) (tokens : List Token) :
    parser.recognize startRule tokens =
      (((unobserved parser.network).recognize startRule tokens).1,
        parser.tell (parser.network.told startRule tokens)) := by
  simp only [recognize, run_eq]
  rfl

/-- The tree is that of a parser without an observer, and the observer is told what the run
announces. -/
theorem parse_eq (parser : Parser σ) (startRule : Nat) (tokens : List Token) :
    parser.parse startRule tokens =
      (((unobserved parser.network).parse startRule tokens).1,
        parser.tell (parser.network.told startRule tokens)) := by
  simp only [parse, run_eq, unobserved]
  cases parser.network.recognition startRule tokens with
  | error fault => rfl
  | ok recognition => rfl

/-- **A request is met as by a parser without an observer.** A run behind it is told to the
recorder, and a new recorder has been told nothing. -/
theorem reply_eq (request : Request) (parser : Parser (Array Notice)) :
    parser.reply request =
      (request.freshReply parser.network,
        if request.run?.isSome then parser.tell (request.told parser.network)
        else recording parser.network) := by
  cases request with
  | run startRule tokens =>
    rw [reply, run_eq, Request.freshReply, run_eq]
    rfl
  | recognize startRule tokens =>
    rw [reply, recognize_eq]
    rfl
  | parse startRule tokens =>
    rw [reply, parse_eq]
    rfl
  | replaceObserver => rfl

/-- **The response of a recorder:** the reply of a parser without an observer, what the run behind
the request announces, and how much the recorder holds by then. -/
theorem respond_eq (network : Network) (earlier : List Request) (request : Request) :
    ((recording network).tell (Request.recorded network earlier)).respond request =
      ({ reply := request.freshReply network
         notices := request.told network
         total := (Request.recorded network (earlier ++ [request])).length },
        (recording network).tell (Request.recorded network (earlier ++ [request]))) := by
  have fresh : ((recording network).tell (Request.recorded network earlier)).network =
    network := rfl
  have before := toList_memory_tell_recording network (Request.recorded network earlier)
  have size : ((recording network).tell (Request.recorded network earlier)).memory.size =
      (Request.recorded network earlier).length := by
    rw [← Array.length_toList, before]
  rw [respond, reply_eq, fresh, Request.recorded_concat, size]
  by_cases keeps : request.run?.isSome = true
  · simp only [keeps, if_true, tell_tell, toList_memory_tell_recording, List.drop_left,
      ← Array.length_toList]
  · -- a new recorder has been told nothing, and nothing is told on the way
    have nothing : request.told network = [] := by
      cases request with
      | replaceObserver => rfl
      | run | recognize | parse => exact absurd rfl keeps
    simp [keeps, nothing, recording, tell]

/-- A session goes on from what it has recorded so far. -/
theorem respondAll_eq (network : Network) (earlier requests : List Request) :
    respondAll requests ((recording network).tell (Request.recorded network earlier)) =
      (requests.mapIdx fun n request =>
        { reply := request.freshReply network
          notices := request.told network
          total := (Request.recorded network (earlier ++ requests.take (n + 1))).length },
        (recording network).tell (Request.recorded network (earlier ++ requests))) := by
  induction requests generalizing earlier with
  | nil => simp [respondAll]
  | cons request rest ih =>
    rw [respondAll, respond_eq]
    simp only [ih, List.append_assoc, List.singleton_append, List.mapIdx_cons, List.take_succ_cons,
      List.take_zero]

end Parser

/-- **Observers are told the truth.** An observer is told of a run that succeeds what is announced
of the items of its chart, position by position and in stored order, and then the verdict. In a
session every reply is that of a fresh parser without an observer; with it the recorder is told what
the run behind the request announces, which is nothing if the run cannot begin; and at every point
the recorder holds what was told since it was installed. -/
theorem Network.session_observed (network : Network) :
    (∀ startRule tokens recognition, network.recognition startRule tokens = .ok recognition →
      recognition.notices = recognition.announcements ++ [recognition.verdict]) ∧
    ∀ requests,
      let session := Parser.respondAll requests (Parser.recording network)
      session.1 = (requests.mapIdx fun n request =>
        { reply := request.freshReply network
          notices := request.told network
          total := (Request.recorded network (requests.take (n + 1))).length }) ∧
      session.2.memory.toList = Request.recorded network requests := by
  refine ⟨fun startRule tokens recognition ran => notices_eq ran, ?_⟩
  intro requests session
  have whole : session = _ := Parser.respondAll_eq network [] requests
  rw [whole]
  exact ⟨rfl, Parser.toList_memory_tell_recording network _⟩

/-- The recorder of a session over the sample holds the notices of the last run: what was found in
front of the nine, and that the input was rejected. The accepted run on a seven was told to the
recorder before it was replaced, and the request for a rule that does not exist adds nothing. -/
theorem Network.session_observed_doubling :
    (∃ recognition, doubling.recognition 0 [7] = .ok recognition ∧
      recognition.notices = recognition.announcements ++ [recognition.verdict] ∧
      recognition.verdict = .accept 2 ⟨1, 0, emptyStack⟩) ∧
    (Parser.respondAll [.run 0 [7], .replaceObserver, .recognize 0 [9], .parse 5 []]
      (Parser.recording doubling)).2.memory.toList =
        [.predict 0 ⟨0, 0, 1⟩ 0, .complete 0 ⟨2, 0, emptyStack⟩ 0, .complete 0 ⟨2, 0, 1⟩ 0,
          .predict 0 ⟨0, 0, 2⟩ 0, .complete 0 ⟨2, 0, 2⟩ 0, .reject 1] := by
  obtain ⟨runs, sessions⟩ := session_observed doubling
  have known : doubling.rule? 0 = some ⟨"S", 0, 1⟩ := rfl
  have ran := recognition_of_rule? known [7]
  constructor
  · exact ⟨_, ran, runs 0 [7] _ ran, by decide +kernel⟩
  · have held := (sessions [.run 0 [7], .replaceObserver, .recognize 0 [9], .parse 5 []]).2
    rw [held]
    decide +kernel

end TransitionNetworks
