/-
# Feature negotiation

A `qSupported` packet lists the features of the debugger with semicolons between them, and the
server answers with `swbreak+` if it finds that feature.  `handle_query` cuts the list up to
the end of the packet, so that its last token is the last feature with the `#` and the
checksum behind it, and the last feature is never found.

The answer repeats `swbreak+` as often as it is found, and 7280 of them are more than the send
buffer holds.
-/

import SpikeSim.Gdb.Requests
import SpikeSim.Gdb.BinaryWrite

namespace SpikeSim.Gdb

variable {fs : List (List Byte)} {h₁ h₂ : Byte} {s s' : GdbServer}

/-! ## The request -/

def swbreak : List Byte := text "swbreak+"

/-- `qSupported` and the features, with semicolons between them. -/
def supportedRequest (fs : List (List Byte)) : List Byte :=
  text "qSupported" ++ if fs = [] then [] else ascii ':' :: [ascii ';'].intercalate fs

/-- A feature as it stands in the list. -/
def IsFeature (feature : List Byte) : Prop := Plain feature ∧ ascii ';' ∉ feature

/-- The packet lists these features. -/
structure ListsFeatures (fs : List (List Byte)) (h₁ h₂ : Byte) : Prop where
  features : ∀ feature ∈ fs, IsFeature feature
  checksum : ShowsChecksum (supportedRequest fs) h₁ h₂

/-! ## The tokens -/

theorem no_separator {feature : List Byte} (h : ascii ';' ∉ feature) :
    ∀ c ∈ feature, decide (c ≠ ascii ';') = true := by
  intro c hc
  rw [decide_eq_true_iff]
  rintro rfl
  exact h hc

theorem features_token {feature : List Byte} (h : ascii ';' ∉ feature) (rest : List Byte) :
    features (feature ++ ascii ';' :: rest) = feature :: features rest := by
  have htake : (feature ++ ascii ';' :: rest).takeWhile (· ≠ ascii ';') = feature := by
    rw [List.takeWhile_append_of_pos (no_separator h)]
    simp
  have hdrop : (feature ++ ascii ';' :: rest).dropWhile (· ≠ ascii ';') = ascii ';' :: rest := by
    rw [List.dropWhile_append_of_pos (no_separator h)]
    simp
  obtain ⟨c, cs, hcons⟩ := List.exists_cons_of_ne_nil
    (show feature ++ ascii ';' :: rest ≠ [] by simp)
  rw [hcons, features, ← hcons, htake, hdrop]
  rfl

theorem features_last {feature : List Byte} (hne : feature ≠ []) (h : ascii ';' ∉ feature) :
    features feature = [feature] := by
  have hall := no_separator h
  obtain ⟨c, cs, rfl⟩ := List.exists_cons_of_ne_nil hne
  rw [features, List.takeWhile_eq_self_iff.mpr hall, List.dropWhile_eq_nil_iff.mpr hall,
    List.drop_nil, features]

/-- **The last token has the end of the packet behind it.** -/
theorem features_list {trailer : List Byte} (hne : trailer ≠ []) (htrailer : ascii ';' ∉ trailer)
    (init : List (List Byte)) (last : List Byte)
    (h : ∀ feature ∈ init ++ [last], ascii ';' ∉ feature) :
    features ([ascii ';'].intercalate (init ++ [last]) ++ trailer) = init ++ [last ++ trailer] := by
  induction init with
  | nil =>
      have hlast : ascii ';' ∉ last := h last (by simp)
      have hall : ascii ';' ∉ last ++ trailer := by
        rw [List.mem_append, not_or]
        exact ⟨hlast, htrailer⟩
      have hone : [ascii ';'].intercalate [last] = last := by simp [List.intercalate]
      rw [List.nil_append, hone, features_last (by simp [hne]) hall]
      rfl
  | cons feature init ih =>
      have hcons : [ascii ';'].intercalate (feature :: init ++ [last]) =
          feature ++ ascii ';' :: [ascii ';'].intercalate (init ++ [last]) := by
        cases init with
        | nil => simp [List.intercalate]
        | cons g init => simp [List.intercalate]
      rw [hcons, List.append_assoc, List.cons_append,
        features_token (h feature (by simp)), ih fun g hg => h g (List.mem_cons_of_mem _ hg)]
      rfl

/-! ## The reply -/

/-- What is replied to these features. -/
def featuresReply (fs : List (List Byte)) : List Byte :=
  if fs = [] then [] else supportedReply fs.dropLast

theorem length_supportedReply (wanted : List (List Byte)) :
    (supportedReply wanted).length = 9 * wanted.count swbreak + 18 := by
  have htail : (text "PacketSize=131072;").length = 18 := by decide
  rw [supportedReply, List.length_append, htail]
  congr 1
  induction wanted with
  | nil => rfl
  | cons feature wanted ih =>
      rw [List.flatMap_cons, List.length_append, ih, List.count_cons]
      by_cases hf : feature = swbreak
      · have hlen : (text "swbreak+;").length = 9 := by decide
        simp only [hf, beq_self_eq_true, if_true, swbreak, hlen]
        omega
      · simp [swbreak] at hf
        simp [hf, swbreak]

/-- The reply names the feature if it is found. -/
theorem swbreak_infix_supportedReply (wanted : List (List Byte)) :
    swbreak <:+: supportedReply wanted ↔ swbreak ∈ wanted := by
  induction wanted with
  | nil => decide
  | cons feature wanted ih =>
      by_cases hf : feature = swbreak
      · have hreply : supportedReply (feature :: wanted) =
            swbreak ++ (ascii ';' :: supportedReply wanted) := by
          simp [supportedReply, hf, swbreak, text]
        rw [hreply]
        exact ⟨fun _ => by rw [hf]; exact List.mem_cons_self, fun _ => ⟨[], _, rfl⟩⟩
      · have hreply : supportedReply (feature :: wanted) = supportedReply wanted := by
          rw [supportedReply, List.flatMap_cons, if_neg (show ¬feature = text "swbreak+" from hf)]
          rfl
        rw [hreply, ih, List.mem_cons]
        exact ⟨.inr, fun h => h.resolve_left fun heq => hf heq.symm⟩

/-- The end of the packet. -/
def trailer (h₁ h₂ : Byte) : List Byte := [ascii '#', h₁, h₂]

/-- The last token does not count. -/
theorem supportedReply_tokens (init : List (List Byte)) (last : List Byte) :
    supportedReply (init ++ [last ++ trailer h₁ h₂]) = supportedReply init := by
  have hlast : last ++ trailer h₁ h₂ ≠ text "swbreak+" := by
    intro heq
    have hmem : ascii '#' ∈ text "swbreak+" := by
      rw [← heq]
      simp [trailer]
    exact absurd hmem (by decide)
  rw [supportedReply, List.flatMap_append, List.flatMap_singleton, if_neg hlast, List.append_nil]
  rfl

theorem hexDigit_ne : ∀ c : Byte, IsHexDigit c → c ≠ ascii ';' ∧ c ≠ ascii ':' := by
  decide +kernel

theorem not_mem_trailer (h : ShowsChecksum (supportedRequest fs) h₁ h₂) :
    ascii ';' ∉ trailer h₁ h₂ ∧ ascii ':' ∉ trailer h₁ h₂ := by
  obtain ⟨hh₁, hh₂, -⟩ := h
  obtain ⟨hsemi₁, hcolon₁⟩ := hexDigit_ne h₁ hh₁
  obtain ⟨hsemi₂, hcolon₂⟩ := hexDigit_ne h₂ hh₂
  have hhash : ascii ';' ≠ ascii '#' ∧ ascii ':' ≠ ascii '#' := by decide
  simp only [trailer, List.mem_cons, List.not_mem_nil, or_false, not_or]
  exact ⟨⟨hhash.1, hsemi₁.symm, hsemi₂.symm⟩, hhash.2, hcolon₁.symm, hcolon₂.symm⟩

/-- The code between `start_packet` and `end_packet`. -/
def replyFeatures (wanted : List (List Byte)) : GdbM Unit := do
  wanted.forM fun feature => do
    if feature = text "swbreak+" then send (text "swbreak+;")
  send (text "PacketSize=131072;")

theorem handleQuery_listed {init : List (List Byte)} {last : List Byte}
    (h : ListsFeatures (init ++ [last]) h₁ h₂) :
    handleQuery (packetOf (supportedRequest (init ++ [last])) h₁ h₂) = (do
      startPacket
      replyFeatures (init ++ [last ++ trailer h₁ h₂])
      endPacket) := by
  have hbytes : (packetOf (supportedRequest (init ++ [last])) h₁ h₂).drop 2 =
      text "Supported" ++ ascii ':' ::
        ([ascii ';'].intercalate (init ++ [last]) ++ trailer h₁ h₂) := by
    rw [packetOf, supportedRequest, if_neg (by simp), List.append_assoc]
    rfl
  have hname : ∀ c ∈ text "Supported", decide (c ≠ ascii ':') = true := by decide
  have hne : trailer h₁ h₂ ≠ [] := by simp [trailer]
  have hfeatures := features_list hne
    (not_mem_trailer h.checksum).1 init last fun feature hmem => (h.features feature hmem).2
  have htake : (text "Supported" ++ ascii ':' ::
      ([ascii ';'].intercalate (init ++ [last]) ++ trailer h₁ h₂)).takeWhile (· ≠ ascii ':') =
        text "Supported" := by
    rw [List.takeWhile_append_of_pos hname]
    simp
  have hdrop : ((text "Supported" ++ ascii ':' ::
      ([ascii ';'].intercalate (init ++ [last]) ++ trailer h₁ h₂)).dropWhile
        (· ≠ ascii ':')).drop 1 = [ascii ';'].intercalate (init ++ [last]) ++ trailer h₁ h₂ := by
    rw [List.dropWhile_append_of_pos hname]
    simp
  rw [handleQuery, hbytes]
  rw [if_pos htake, hdrop, hfeatures]
  simp only [replyFeatures, bind_assoc]

theorem handleQuery_none (h : ListsFeatures [] h₁ h₂) :
    handleQuery (packetOf (supportedRequest []) h₁ h₂) = sendPacket "" := by
  have hbytes : (packetOf (supportedRequest []) h₁ h₂).drop 2 =
      text "Supported" ++ trailer h₁ h₂ := rfl
  have hname : ∀ c ∈ text "Supported" ++ trailer h₁ h₂, decide (c ≠ ascii ':') = true := by
    intro c hc
    rw [decide_eq_true_iff]
    rintro rfl
    rcases List.mem_append.mp hc with hmem | hmem
    · exact absurd hmem (by decide)
    · exact (not_mem_trailer h.checksum).2 hmem
  rw [handleQuery, hbytes]
  rw [List.takeWhile_eq_self_iff.mpr hname, if_neg]
  intro heq
  have hlen := congrArg List.length heq
  simp [trailer] at hlen

/-! ## What the server answers -/

theorem puts_replyFeatures (wanted : List (List Byte)) :
    Puts (supportedReply wanted) (replyFeatures wanted) := by
  apply Puts.bind
  · apply puts_forM
    intro feature
    by_cases hf : feature = text "swbreak+"
    · simp only [if_pos hf]
      exact puts_send _
    · simp only [if_neg hf]
      exact puts_nil
  · exact fun _ => puts_send _

/-- The reply, if there is one. -/
theorem buffered_query (h : ListsFeatures fs h₁ h₂) (hcap : s.sendBuf.capacity = 65536)
    (hrun : handleQuery (packetOf (supportedRequest fs) h₁ h₂) s = .ok () s') :
    Buffered s (frame (featuresReply fs)) s' := by
  rcases List.eq_nil_or_concat' fs with rfl | ⟨init, last, rfl⟩
  · rw [handleQuery_none h] at hrun
    exact buffered_sendPacket hcap hrun
  · rw [handleQuery_listed h] at hrun
    have hout := buffered_packet (puts_replyFeatures _) hcap hrun
    rw [supportedReply_tokens] at hout
    rw [featuresReply, if_neg (by simp), List.dropLast_concat]
    exact hout

/-- A reply that fits is sent. -/
theorem does_query (h : ListsFeatures fs h₁ h₂)
    (hroom : Roomy s ((featuresReply fs).length + 4)) :
    ∃ s', handleQuery (packetOf (supportedRequest fs) h₁ h₂) s = .ok () s' := by
  rcases List.eq_nil_or_concat' fs with rfl | ⟨init, last, rfl⟩
  · rw [handleQuery_none h]
    have hempty : Roomy s ((text "").length + 4) := hroom
    obtain ⟨⟨⟩, s', hrun, -⟩ := (does_sendPacket hempty).ok
    exact ⟨s', hrun⟩
  · rw [featuresReply, if_neg (by simp), List.dropLast_concat,
      ← @supportedReply_tokens h₁ h₂ init last] at hroom
    rw [handleQuery_listed h]
    obtain ⟨⟨⟩, s', hrun, -⟩ := (does_packet _ _ hroom fun s' he =>
      sends_features (Roomy.emits (hroom.mono (by simp only [List.length_singleton]; omega)) he)).ok
    exact ⟨s', hrun⟩

/-- The request is answered with one frame, and it names `swbreak+` if the packet lists it. -/
def NegotiatesSwbreak (fs : List (List Byte)) (packet : List Byte) (s : GdbServer) : Prop :=
  ∃ s' payload, answerRequest packet s = .ok () s' ∧
    s'.sent = s.sent ++ ascii '+' :: frame payload ∧ (swbreak <:+: payload ↔ swbreak ∈ fs)

theorem swbreak_infix_featuresReply (fs : List (List Byte)) :
    swbreak <:+: featuresReply fs ↔ swbreak ∈ fs.dropLast := by
  rw [featuresReply]
  split_ifs with hnil
  · rw [hnil]
    decide
  · exact swbreak_infix_supportedReply _

/-- The send buffer takes the acknowledgement and a reply with up to 7279 names. -/
theorem featuresReply_fits (fs : List (List Byte)) :
    ((featuresReply fs).length + 6 < 65536 ↔ fs.dropLast.count swbreak ≤ 7279) ∧
      ((featuresReply fs).length + 5 < 65536 → fs.dropLast.count swbreak ≤ 7279) := by
  rw [featuresReply]
  split_ifs with hnil
  · rw [hnil]
    decide
  · rw [length_supportedReply]
    omega

theorem frame_injective {p q : List Byte} (h : frame p = frame q) : p = q := by
  have hlen := congrArg List.length h
  rw [length_frame, length_frame, Nat.add_right_cancel_iff] at hlen
  exact (List.append_inj (List.cons.inj h).2 hlen).1

/-- With the right checksum the request reaches `handle_query`. -/
theorem answerRequest_eq (h : ListsFeatures fs h₁ h₂) :
    answerRequest (packetOf (supportedRequest fs) h₁ h₂) = (do
      write
      send (text "+")
      handleQuery (packetOf (supportedRequest fs) h₁ h₂)) := by
  rw [answerRequest, handlePacket, if_neg (not_not.mpr h.checksum.computeChecksum_eq)]
  rfl

/-- The send buffer once it was written out and the acknowledgement put into it. -/
theorem acknowledged (hcap : s.sendBuf.capacity = 65536) : ∃ s₁ s₂, write s = .ok () s₁ ∧
    send (text "+") s₁ = .ok () s₂ ∧ s₂.sent = s.sent ++ [ascii '+'] ∧
      s₂.sendBuf.size = 1 ∧ s₂.sendBuf.capacity = 65536 := by
  let s₁ : GdbServer := { s with sendBuf := s.sendBuf.writeOut }
  have hsize : s₁.sendBuf.size = 0 := RingBuffer.size_writeOut (hcap.le.trans (by decide))
  have hroom : Roomy s₁ (text "+").length := ⟨hcap, by rw [hsize]; decide⟩
  obtain ⟨b, hsend, hb, hcap'⟩ := exists_send hroom
  refine ⟨s₁, _, rfl, hsend, rfl, ?_, hcap'.trans hcap⟩
  rw [hb, hsize]
  rfl

/-- What an answer consists of. -/
theorem sent_answerRequest (h : ListsFeatures fs h₁ h₂) (hcap : s.sendBuf.capacity = 65536)
    (hrun : answerRequest (packetOf (supportedRequest fs) h₁ h₂) s = .ok () s') :
    s'.sent = s.sent ++ ascii '+' :: frame (featuresReply fs) ∧
      fs.dropLast.count swbreak ≤ 7279 := by
  obtain ⟨s₁, s₂, hwrite, hplus, hsent, hsize, hcap₂⟩ := acknowledged hcap
  rw [answerRequest_eq h, bind_eq_of_ok hwrite, bind_eq_of_ok hplus] at hrun
  have hout := buffered_query h hcap₂ hrun
  have hlt := hout.length_lt
  rw [hsize, length_frame] at hlt
  refine ⟨?_, (featuresReply_fits fs).2 (by omega)⟩
  rw [hout.sent, hsent, List.append_assoc]
  rfl

theorem exists_answerRequest (h : ListsFeatures fs h₁ h₂) (hcap : s.sendBuf.capacity = 65536)
    (hcount : fs.dropLast.count swbreak ≤ 7279) :
    ∃ s', answerRequest (packetOf (supportedRequest fs) h₁ h₂) s = .ok () s' := by
  obtain ⟨s₁, s₂, hwrite, hplus, -, hsize, hcap₂⟩ := acknowledged hcap
  have hfits := (featuresReply_fits fs).1.mpr hcount
  have hroom : Roomy s₂ ((featuresReply fs).length + 4) := ⟨hcap₂, by rw [hsize]; omega⟩
  obtain ⟨s', hquery⟩ := does_query h hroom
  refine ⟨s', ?_⟩
  rw [answerRequest_eq h, bind_eq_of_ok hwrite, bind_eq_of_ok hplus]
  exact hquery

/-- **When `swbreak+` is negotiated as it is listed.**  The server misses it in the last place
of the list, and it fails on a list that repeats it more often than its reply can. -/
theorem negotiates_swbreak_iff (h : ListsFeatures fs h₁ h₂)
    (hcap : s.sendBuf.capacity = 65536) :
    NegotiatesSwbreak fs (packetOf (supportedRequest fs) h₁ h₂) s ↔
      (swbreak ∈ fs → swbreak ∈ fs.dropLast) ∧ fs.dropLast.count swbreak ≤ 7279 := by
  constructor
  · rintro ⟨s', payload, hrun, hsent, hnames⟩
    obtain ⟨hsent', hcount⟩ := sent_answerRequest h hcap hrun
    have hframe := (List.cons.inj (List.append_cancel_left (hsent.symm.trans hsent'))).2
    obtain rfl := frame_injective hframe
    exact ⟨fun hmem => (swbreak_infix_featuresReply fs).mp (hnames.mpr hmem), hcount⟩
  · rintro ⟨hlisted, hcount⟩
    obtain ⟨s', hrun⟩ := exists_answerRequest h hcap hcount
    refine ⟨s', _, hrun, (sent_answerRequest h hcap hrun).1, ?_⟩
    rw [swbreak_infix_featuresReply]
    exact ⟨fun hmem => List.mem_of_mem_dropLast hmem, hlisted⟩

/-- The list of a debugger with `swbreak+` in the middle. -/
def usualFeatures : List (List Byte) :=
  [text "multiprocess+", swbreak, text "hwbreak+", text "qRelocInsn+"]

theorem negotiates_usualFeatures : NegotiatesSwbreak usualFeatures
    (packetOf (supportedRequest usualFeatures) (ascii 'c') (ascii '9')) haltedServer :=
  (negotiates_swbreak_iff (s := haltedServer)
    ⟨by unfold IsFeature; decide +kernel, by unfold ShowsChecksum; decide +kernel⟩ rfl).mpr
    ⟨by decide +kernel, by decide +kernel⟩

/-- `swbreak+` alone is not found. -/
theorem last_feature_missed : ¬∀ (fs : List (List Byte)) (h₁ h₂ : Byte) (s : GdbServer),
    ListsFeatures fs h₁ h₂ → s.sendBuf.capacity = 65536 →
      NegotiatesSwbreak fs (packetOf (supportedRequest fs) h₁ h₂) s := by
  intro h
  have hlists : ListsFeatures [swbreak] (ascii '8') (ascii 'b') :=
    ⟨by unfold IsFeature; decide +kernel, by unfold ShowsChecksum; decide +kernel⟩
  obtain ⟨s', payload, hrun, hsent, hnames⟩ := h _ _ _ haltedServer hlists rfl
  obtain ⟨hsent', -⟩ := sent_answerRequest hlists rfl hrun
  have hframe := (List.cons.inj (List.append_cancel_left (hsent.symm.trans hsent'))).2
  obtain rfl := frame_injective hframe
  exact absurd (hnames.mpr (by decide)) (by decide +kernel)

end SpikeSim.Gdb
