import Mathlib.Data.List.Forall2
import Mathlib.Data.List.Nodup
import Assembly8085.Proofs.Discarding
import Assembly8085.Proofs.Modes
import Assembly8085.Proofs.Scan

/-!
# Leaves are tokens

The leaves of a tree are the names and numbers of the source in order, each once, but for those in
a part of a line that was discarded. Where a part was discarded is said by the diagnostics: from
the token that is out of order up to the end of its line. So no name or number is lost without an
error that says where.
-/
namespace Assembly8085

/-- The leaves of a tree in the order of their numbers. -/
def SyntaxTree.leaves (tree : SyntaxTree) : List Node :=
  tree.nodes.toList.filter (·.kind.isExpression)

/-- The tokens that are discarded where a diagnostic says that one of them is out of order. -/
def Diagnostic.discarded (tokens : List Token) (diagnostic : Diagnostic) : List Token :=
  match diagnostic.location with
  | some location =>
    if diagnostic.notice.isParsing then location.span.restOfLine tokens else []
  | none => []

/-- The names and numbers among tokens that stand in no part of a line that is discarded. -/
def keptTokens (tokens : List Token) (diagnostics : List Diagnostic) : List Token :=
  tokens.filter fun token =>
    token.kind.isLiteral && decide (token ∉ diagnostics.flatMap (·.discarded tokens))

/-- A leaf stands for a token: it covers the same stretch, and it holds the characters of a name
or the value of a number. A number counts as zero if it has no value, and exactly then there is a
diagnostic about it, which is about the very same stretch. -/
structure Token.Represents (file : String) (diagnostics : List Diagnostic) (token : Token)
    (leaf : Node) : Prop where
  /-- The leaf starts where the token does. -/
  position : leaf.position = token.position
  /-- The leaf is as long as the token. -/
  length : leaf.length = token.length
  /-- The leaf of a name holds its characters. -/
  identifier : token.kind = .identifier → leaf.data = .identifier token.text
  /-- The leaf of a number holds its value. -/
  integer : token.kind = .integer →
    leaf.data = .integer ((Literal.decode token.text).getD 0)
  /-- A number without a value is told at its place, and no other one is. -/
  malformed : token.kind = .integer → ∀ text,
    (⟨.malformedInteger text, some ⟨file, token.position, token.length⟩⟩ ∈ diagnostics ↔
      text = token.text ∧ Literal.decode token.text = none)

/-- A leaf says what its token does: the characters of a name, or the value that a number has. -/
structure Token.Says (token : Token) (leaf : Node) : Prop where
  /-- The leaf starts where the token does. -/
  position : leaf.position = token.position
  /-- The leaf is as long as the token. -/
  length : leaf.length = token.length
  /-- The leaf of a name holds its characters. -/
  identifier : token.kind = .identifier → leaf.data = .identifier token.text
  /-- A number has a value, which its leaf holds. -/
  integer : token.kind = .integer →
    ∃ value, Literal.decode token.text = some value ∧ leaf.data = .integer value

namespace Remark

/-- The stretch that a remark is about. -/
def span (remark : Remark) : Span := ⟨remark.position, remark.length⟩

/-- Only the remarks about the order of tokens discard any. -/
theorem flatMap_discarded (file : String) (tokens : List Token) (remarks : List Remark) :
    (remarks.map (·.inFile file)).flatMap (·.discarded tokens) =
      ((remarks.filter (·.notice.isParsing)).map span).flatMap (·.restOfLine tokens) := by
  induction remarks with
  | nil => rfl
  | cons remark others ih =>
    have here : (remark.inFile file).discarded tokens =
        if remark.notice.isParsing then remark.span.restOfLine tokens else [] := rfl
    rw [List.map_cons, List.flatMap_cons, ih, here, List.filter_cons]
    split <;> simp

end Remark

/-- All remarks of one kind of notice are kept where such notices are wanted. -/
theorem filter_remarksAt_eq_self (wanted : Notice → Bool) {notice : Option Notice}
    (each : ∀ {found}, notice = some found → wanted found = true) (position length : Nat) :
    (remarksAt position length notice).filter (wanted ·.notice) =
      remarksAt position length notice := by
  cases notice with
  | none => rfl
  | some notice => simp [remarksAt, each rfl]

/-- None of them are kept where such notices are not wanted. -/
theorem filter_remarksAt_eq_nil (wanted : Notice → Bool) {notice : Option Notice}
    (each : ∀ {found}, notice = some found → wanted found = false) (position length : Nat) :
    (remarksAt position length notice).filter (wanted ·.notice) = [] := by
  cases notice with
  | none => rfl
  | some notice => simp [remarksAt, each rfl]

/-- A remark about a token has the span of the token. -/
theorem map_span_remarksAt (token : Token) (notice : Option Notice) :
    (remarksAt token.position token.length notice).map Remark.span =
      (if notice.isSome then [token] else []).map Token.span := by
  cases notice <;> rfl

/-- What a lexeme alone gives rise to say is not about the order of tokens. -/
theorem Lexeme.isParsing_of_notice? {lexeme : Lexeme} {notice : Notice}
    (noticed : lexeme.notice? = some notice) : notice.isParsing = false := by
  rcases notice?_eq_some_iff.mp noticed with ⟨_, _, rfl⟩ | ⟨_, rfl⟩ | ⟨_, _, _, rfl⟩ <;> rfl

/-- The note about the last line is not about the order of tokens. -/
theorem isParsing_expectedFinalNewline (unended : Bool) {notice : Notice}
    (noted : (if unended then some Notice.expectedFinalNewline else none) = some notice) :
    notice.isParsing = false := by
  split at noted
  · obtain rfl := Option.some.inj noted
    rfl
  · contradiction

namespace Reading

variable (reading : Reading) (position : Nat) (unended : Bool) (lexemes : List Lexeme)

/-- The remarks about the order of tokens are about the tokens that are out of order. -/
theorem span_filter_isParsing_remarksToEnd :
    ((reading.remarksToEnd position unended lexemes).filter (·.notice.isParsing)).map Remark.span =
      (reading.refused ⟨.endOfFile, [], position + Lexeme.totalLength lexemes⟩
        (Lexeme.tokensFrom position lexemes)).map Token.span := by
  induction lexemes generalizing reading position with
  | nil =>
    have quiet := filter_remarksAt_eq_nil (·.isParsing) (isParsing_expectedFinalNewline unended)
      position 0
    have out := filter_remarksAt_eq_self (·.isParsing) reading.isParsing_finish position 0
    rw [remarksToEnd_nil, lastRemarks, List.filter_append, quiet, out, List.nil_append,
      Lexeme.tokensFrom, refused]
    exact map_span_remarksAt ⟨.endOfFile, [], position⟩ _
  | cons lexeme others ih =>
    have quiet := filter_remarksAt_eq_nil (·.isParsing) lexeme.isParsing_of_notice? position
      (Text.byteLength lexeme.text)
    rw [Lexeme.totalLength_cons, ← Nat.add_assoc]
    cases lexeme with
    | stray c =>
      rw [remarksToEnd_stray, List.filter_append]
      exact (congrArg (List.map _ <| · ++ _) quiet).trans (ih reading _)
    | token kind text =>
      have out := filter_remarksAt_eq_self (·.isParsing)
        (reading.isParsing_step ⟨kind, text, position⟩) position (Text.byteLength text)
      have later := ih (reading.step ⟨kind, text, position⟩).reading
        (position + Text.byteLength text)
      simp only [Lexeme.text] at quiet ⊢
      rw [remarksToEnd_token, List.filter_append, List.filter_append, quiet, out, List.nil_append,
        List.map_append, later, Lexeme.tokensFrom, Lexeme.kind?, refused, List.map_append]
      exact congrArg (· ++ _) (map_span_remarksAt ⟨kind, text, position⟩ _)

/-- The other remarks are those on the lexemes by themselves and the one on the last line. -/
theorem filter_not_isParsing_remarksToEnd :
    (reading.remarksToEnd position unended lexemes).filter (!·.notice.isParsing) =
      Lexeme.remarksFrom position lexemes ++
        remarksAt (position + Lexeme.totalLength lexemes) 0
          (if unended then some .expectedFinalNewline else none) := by
  induction lexemes generalizing reading position with
  | nil =>
    have out := filter_remarksAt_eq_self (!·.isParsing)
      (fun noted => by simpa using isParsing_expectedFinalNewline unended noted) position 0
    have quiet := filter_remarksAt_eq_nil (!·.isParsing)
      (fun noticed => by simpa using reading.isParsing_finish noticed) position 0
    rw [remarksToEnd_nil, lastRemarks, List.filter_append, out, quiet, List.append_nil]
    rfl
  | cons lexeme others ih =>
    have out := filter_remarksAt_eq_self (!·.isParsing)
      (fun noticed => by simpa using lexeme.isParsing_of_notice? noticed) position
      (Text.byteLength lexeme.text)
    rw [Lexeme.totalLength_cons, ← Nat.add_assoc, Lexeme.remarksFrom, List.append_assoc]
    cases lexeme with
    | stray c =>
      rw [remarksToEnd_stray, List.filter_append]
      exact (congrArg (· ++ _) out).trans (congrArg (_ ++ ·) (ih reading _))
    | token kind text =>
      have quiet := filter_remarksAt_eq_nil (!·.isParsing)
        (fun noticed => by simpa using reading.isParsing_step ⟨kind, text, position⟩ noticed)
        position (Text.byteLength text)
      simp only [Lexeme.text] at out ⊢
      rw [remarksToEnd_token, List.filter_append, List.filter_append, out, quiet, List.nil_append,
        ih]

end Reading

/-- The remarks on a source about the order of tokens are about the tokens that are out of order. -/
theorem span_filter_isParsing_remarksOn (source : List Char) :
    ((remarksOn source).filter (·.notice.isParsing)).map Remark.span =
      (Reading.betweenStatements.refused ⟨.endOfFile, [], Text.byteLength source⟩
        (Lexeme.tokensFrom 0 (Lexeme.ofText source))).map Token.span := by
  have spans := Reading.betweenStatements.span_filter_isParsing_remarksToEnd 0 (isUnended source)
    (Lexeme.ofText source)
  rwa [Nat.zero_add, Lexeme.totalLength_ofText] at spans

namespace Program

/-- Of the nodes of statements, the leaves are those of the tokens that the statements keep. -/
theorem toSeed_filter_isExpression_nodesFrom (base : NodeId) (parent : Option NodeId)
    (statements : List Statement) :
    ((nodesFrom base parent statements).filter (·.kind.isExpression)).map Node.toSeed =
      (statements.flatMap Statement.leaves).map Token.seed := by
  induction statements generalizing base with
  | nil => rfl
  | cons statement others ih =>
    have tokens : (statement.leaves.map (·.node (some (statement.id base)))).filter
          (·.kind.isExpression) =
        statement.leaves.map (·.node (some (statement.id base))) := by
      rw [List.filter_eq_self]
      intro node member
      obtain ⟨token, _, rfl⟩ := List.mem_map.mp member
      exact token.isExpression_kind_content
    have itself : [statement.node base parent].filter (·.kind.isExpression) = [] := by
      cases statement <;> rfl
    rw [nodesFrom, Statement.nodes, List.filter_append, List.filter_append, tokens, itself,
      List.append_nil, List.map_append, ih, List.flatMap_cons, List.map_append, List.map_map]
    rfl

/-- The leaves of the tree of a program are those of the tokens that its statements keep. -/
theorem toSeed_leaves_grown (program : Program) :
    program.grown.leaves.map Node.toSeed =
      (program.statements.flatMap Statement.leaves).map Token.seed := by
  have root : [program.node].filter (·.kind.isExpression) = [] := rfl
  change (program.nodes.filter _).map _ = _
  rw [nodes, List.filter_append, root, List.append_nil, toSeed_filter_isExpression_nodesFrom]

end Program

/-- The tokens of a source stand one behind the other, and its end stands behind them. -/
theorem pairwise_position_surfacedTokens (file : String) (source : List Char) :
    ((surfacedTokens file source).map (·.position)).Pairwise (· < ·) := by
  have lawful (token : Token) (member : token ∈ Lexeme.tokensFrom 0 (Lexeme.ofText source)) :
      token.position < token.stop :=
    Nat.lt_add_of_pos_right (Text.byteLength_pos (Lexeme.text_ne_nil_of_isLawful
      (Lexeme.isLawful_of_mem (Lexeme.munched_ofText source)
        (Lexeme.mem_of_mem_tokensFrom member))))
  rw [surfacedTokens_eq, List.pairwise_map, List.pairwise_append]
  refine ⟨?_, List.pairwise_singleton .., ?_⟩
  · refine (Lexeme.pairwise_tokensFrom 0 (Lexeme.ofText source)).imp_of_mem ?_
    intro first second here _ apart
    exact Nat.lt_of_lt_of_le (lawful first here) apart
  · intro token member last same
    obtain rfl := List.mem_singleton.mp same
    have before := (Lexeme.position_le_of_mem_tokensFrom member).2
    rw [Nat.zero_add, Lexeme.totalLength_ofText] at before
    exact Nat.lt_of_lt_of_le (lawful token member) before

/-- Two tokens of a source at the same place are the same. -/
theorem eq_of_position_eq {source : List Char} {first second : Token}
    (here : first ∈ Lexeme.tokensFrom 0 (Lexeme.ofText source))
    (there : second ∈ Lexeme.tokensFrom 0 (Lexeme.ofText source))
    (same : first.position = second.position) : first = second := by
  have ordered := pairwise_position_surfacedTokens "" source
  rw [surfacedTokens_eq] at ordered
  have distinct := ordered.imp fun before => Nat.ne_of_lt before
  exact List.inj_on_of_nodup_map distinct (List.mem_append_left _ here)
    (List.mem_append_left _ there) same

/-- What is said to be malformed is a number without a value. -/
theorem Lexeme.notice?_eq_malformedInteger_iff {lexeme : Lexeme} {text : List Char} :
    lexeme.notice? = some (.malformedInteger text) ↔
      lexeme = .token .integer text ∧ Literal.decode text = none := by
  simp only [notice?_eq_some_iff, reduceCtorEq, and_false, exists_false, false_or,
    Notice.malformedInteger.injEq]
  constructor
  · rintro ⟨same, integer, valueless, rfl⟩
    exact ⟨integer, valueless⟩
  · rintro ⟨integer, valueless⟩
    exact ⟨text, integer, valueless, rfl⟩

/-- The parse of a source keeps a remark that is not about the order of tokens, but for the one on
the last line, exactly if it is one on the lexemes by themselves. -/
theorem mem_remarksOn_iff {source : List Char} {remark : Remark}
    (single : remark.notice.isParsing = false) (inside : remark.notice ≠ .expectedFinalNewline) :
    remark ∈ remarksOn source ↔ remark ∈ Lexeme.remarksFrom 0 (Lexeme.ofText source) := by
  have final : remark ∉ remarksAt (0 + Lexeme.totalLength (Lexeme.ofText source)) 0
      (if isUnended source then some .expectedFinalNewline else none) := by
    intro member
    obtain ⟨notice, noted, rfl⟩ := List.mem_map.mp member
    split at noted
    · exact inside (List.mem_singleton.mp noted)
    · contradiction
  have kept := Reading.betweenStatements.filter_not_isParsing_remarksToEnd 0 (isUnended source)
    (Lexeme.ofText source)
  have member : remark ∈ remarksOn source ↔
      remark ∈ (remarksOn source).filter (!·.notice.isParsing) := by
    simp [single]
  rw [member, remarksOn, kept, List.mem_append, or_iff_left final]

/-- A number of a source is told to be malformed at its place exactly if it has no value. -/
theorem malformed_mem_iff (file : String) {source : List Char} {token : Token}
    (member : token ∈ Lexeme.tokensFrom 0 (Lexeme.ofText source))
    (integer : token.kind = .integer) (text : List Char) :
    ⟨.malformedInteger text, some ⟨file, token.position, token.length⟩⟩ ∈
        (parseSource file source .debug).2.diagnostics.toList ↔
      text = token.text ∧ Literal.decode token.text = none := by
  have remarked : ⟨.malformedInteger text, some ⟨file, token.position, token.length⟩⟩ ∈
        (parseSource file source .debug).2.diagnostics.toList ↔
      ⟨.malformedInteger text, token.position, token.length⟩ ∈
        Lexeme.remarksFrom 0 (Lexeme.ofText source) := by
    rw [← mem_remarksOn_iff rfl (by simp), diagnostics_parseSource, List.mem_map]
    constructor
    · rintro ⟨remark, there, same⟩
      cases remark
      simp only [Remark.inFile, Diagnostic.mk.injEq, Option.some.injEq, Location.mk.injEq,
        true_and] at same
      obtain ⟨rfl, rfl, rfl⟩ := same
      exact there
    · exact fun there => ⟨_, there, rfl⟩
  rw [remarked, Lexeme.mem_remarksFrom_iff]
  constructor
  · rintro ⟨earlier, lexeme, later, cut, noticed, place, length⟩
    obtain ⟨rfl, none⟩ := Lexeme.notice?_eq_malformedInteger_iff.mp noticed
    have other : (⟨.integer, text, token.position⟩ : Token) ∈
        Lexeme.tokensFrom 0 (Lexeme.ofText source) :=
      Lexeme.mem_tokensFrom_iff.mpr ⟨earlier, later, cut, place⟩
    obtain rfl : text = token.text := congrArg Token.text (eq_of_position_eq other member rfl)
    exact ⟨rfl, none⟩
  · rintro ⟨rfl, none⟩
    obtain ⟨earlier, later, cut, place⟩ := Lexeme.mem_tokensFrom_iff.mp member
    rw [integer] at cut
    exact ⟨earlier, _, later, cut, Lexeme.notice?_eq_malformedInteger_iff.mpr ⟨rfl, none⟩, place,
      rfl⟩

/-- The names and numbers among the tokens of a source that stand in no part of a line that is
discarded are the ones that its reading keeps. -/
theorem keptTokens_eq (file : String) (source : List Char) :
    keptTokens (surfacedTokens file source)
        (parseSource file source .debug).2.diagnostics.toList =
      Reading.betweenStatements.kept (Lexeme.tokensFrom 0 (Lexeme.ofText source)) := by
  have spans := Reading.betweenStatements.span_filter_isParsing_remarksToEnd 0 (isUnended source)
    (Lexeme.ofText source)
  have ordered := pairwise_position_surfacedTokens file source
  rw [List.pairwise_map] at ordered
  have distinct : (surfacedTokens file source).Pairwise (·.span ≠ ·.span) :=
    ordered.imp fun before same => Nat.ne_of_lt before (congrArg Span.position same)
  rw [surfacedTokens_eq] at distinct ⊢
  rw [keptTokens, diagnostics_parseSource, Remark.flatMap_discarded, remarksOn, spans,
    Reading.kept_eq_filter _ distinct rfl, Nat.zero_add, Lexeme.totalLength_ofText,
    List.flatMap_map]
  rfl

/-- The leaves of the tree of a source are grown from the tokens that are kept. -/
theorem forall₂_keptTokens_leaves (file : String) (source : List Char) :
    List.Forall₂ (fun token (leaf : Node) => token.seed = leaf.toSeed)
      (keptTokens (surfacedTokens file source)
        (parseSource file source .debug).2.diagnostics.toList)
      (Program.ofLexemes 0 (Lexeme.ofText source)).grown.leaves := by
  have orderly : Reading.betweenStatements.Orderly := trivial
  have same := (Program.ofLexemes 0 (Lexeme.ofText source)).toSeed_leaves_grown
  have kept := Reading.flatMap_leaves_statements orderly
    (Lexeme.tokensFrom 0 (Lexeme.ofText source))
  rw [Program.ofLexemes, kept, ← keptTokens_eq file source] at same
  have equal := List.forall₂_eq_eq_eq ▸ same.symm
  rwa [List.forall₂_map_left_iff, List.forall₂_map_right_iff] at equal

/-- A token that is kept is a name or a number of the source. -/
theorem mem_of_mem_keptTokens {file : String} {source : List Char} {diagnostics : List Diagnostic}
    {token : Token} (member : token ∈ keptTokens (surfacedTokens file source) diagnostics) :
    token ∈ Lexeme.tokensFrom 0 (Lexeme.ofText source) ∧ token.kind.isLiteral = true := by
  obtain ⟨there, literal⟩ := List.mem_filter.mp member
  rw [Bool.and_eq_true] at literal
  rw [surfacedTokens_eq, List.mem_append] at there
  rcases there with inside | last
  · exact ⟨inside, literal.1⟩
  · rw [List.mem_singleton.mp last] at literal
    exact absurd literal.1 Bool.false_ne_true

/-- A leaf that is grown from a name or a number of a source stands for it. -/
theorem represents_of_seed_eq (file : String) {source : List Char} {token : Token} {leaf : Node}
    (member : token ∈ Lexeme.tokensFrom 0 (Lexeme.ofText source))
    (grown : token.seed = leaf.toSeed) :
    token.Represents file (parseSource file source .debug).2.diagnostics.toList leaf where
  position := by rw [← grown]; rfl
  length := by rw [← grown]; rfl
  identifier name := by rw [← grown]; simp [Token.seed, Token.leaf, name]
  integer number := by rw [← grown]; simp [Token.seed, Token.leaf, number]
  malformed number := malformed_mem_iff file member number

/-- What is told to be out of order is a token of the source, or its end. -/
theorem exists_token_of_isParsing {file : String} {source : List Char} {diagnostic : Diagnostic}
    (member : diagnostic ∈ (parseSource file source .debug).2.diagnostics.toList)
    (parsing : diagnostic.notice.isParsing = true) :
    ∃ token ∈ surfacedTokens file source,
      diagnostic.location = some ⟨file, token.position, token.length⟩ := by
  rw [diagnostics_parseSource] at member
  obtain ⟨remark, there, rfl⟩ := List.mem_map.mp member
  have spans := Reading.betweenStatements.span_filter_isParsing_remarksToEnd 0 (isUnended source)
    (Lexeme.ofText source)
  have about : remark.span ∈ ((remarksOn source).filter (·.notice.isParsing)).map Remark.span :=
    List.mem_map_of_mem (List.mem_filter.mpr ⟨there, parsing⟩)
  rw [remarksOn, spans, Nat.zero_add, Lexeme.totalLength_ofText] at about
  obtain ⟨token, refused, same⟩ := List.mem_map.mp about
  refine ⟨token, ?_, ?_⟩
  · rw [surfacedTokens_eq]
    exact Reading.refused_subset _ _ _ refused
  · obtain ⟨position, length⟩ := Span.mk.inj same
    rw [position, length]
    rfl

/-- Where no error is told, no token is discarded. -/
theorem keptTokens_of_silent {tokens : List Token} {diagnostics : List Diagnostic}
    (silent : ∀ diagnostic ∈ diagnostics, diagnostic.isError = false) :
    keptTokens tokens diagnostics = tokens.filter (·.kind.isLiteral) := by
  have none : diagnostics.flatMap (·.discarded tokens) = [] := by
    rw [List.flatMap_eq_nil_iff]
    intro diagnostic member
    have single : diagnostic.notice.isParsing = false := by
      rw [Bool.eq_false_iff]
      intro parsing
      have error := silent diagnostic member
      rw [Diagnostic.isError, Notice.isError_of_isParsing parsing] at error
      contradiction
    rw [Diagnostic.discarded, single]
    split <;> rfl
  simp [keptTokens, none]

/-- Where no error is told, a leaf that stands for a token says what the token does. -/
theorem Token.Represents.says {file : String} {diagnostics : List Diagnostic} {token : Token}
    {leaf : Node} (represents : token.Represents file diagnostics leaf)
    (silent : ∀ diagnostic ∈ diagnostics, diagnostic.isError = false) : token.Says leaf where
  position := represents.position
  length := represents.length
  identifier := represents.identifier
  integer number := by
    have data := represents.integer number
    cases decoded : Literal.decode token.text with
    | some value => exact ⟨value, rfl, by rw [data, decoded]; rfl⟩
    | none =>
      have told := (represents.malformed number token.text).mpr ⟨rfl, decoded⟩
      exact absurd (silent _ told) (by simp [Diagnostic.isError, Notice.isError, Notice.severity])

/-- The leaves of the tree of a source are, in order, its names and numbers but for those in parts
of lines that are discarded, which start at tokens that are told to be out of order. Each leaf
holds what its token says; where no error is told, it stands for every name and number. -/
theorem leaves_parseSource (file : String) (source : List Char) :
    let run := parseSource file source .debug
    let tokens := surfacedTokens file source
    let diagnostics := run.2.diagnostics.toList
    (∀ diagnostic ∈ diagnostics, diagnostic.notice.isParsing = true →
      ∃ token ∈ tokens, diagnostic.location = some ⟨file, token.position, token.length⟩) ∧
    ∃ tree, run.1 = .ok tree ∧
      List.Forall₂ (Token.Represents file diagnostics) (keptTokens tokens diagnostics)
        tree.leaves ∧
      (tree.leaves.map (·.position)).Pairwise (· < ·) ∧
      (run.2.hasErrors = false →
        List.Forall₂ Token.Says (tokens.filter (·.kind.isLiteral)) tree.leaves) := by
  intro run tokens diagnostics
  have grown := (List.forall₂_and_left _ _).mpr
    ⟨fun _ member => mem_of_mem_keptTokens member, forall₂_keptTokens_leaves file source⟩
  have represented := grown.imp fun token leaf ⟨there, seed⟩ =>
    represents_of_seed_eq file there.1 seed
  have positions : (keptTokens tokens diagnostics).map (·.position) =
      (Program.ofLexemes 0 (Lexeme.ofText source)).grown.leaves.map (·.position) := by
    rw [← List.forall₂_eq_eq_eq, List.forall₂_map_left_iff, List.forall₂_map_right_iff]
    exact represented.imp fun token leaf represents => represents.position.symm
  refine ⟨fun _ => exists_token_of_isParsing, _, fst_parseSource_debug file source, represented,
    ?_, ?_⟩
  · rw [← positions]
    exact (pairwise_position_surfacedTokens file source).sublist (List.filter_sublist.map _)
  · intro none
    have silent : ∀ diagnostic ∈ diagnostics, diagnostic.isError = false := by
      intro diagnostic member
      exact Bool.eq_false_iff.mpr
        (Array.any_eq_false'.mp none diagnostic (Array.mem_toList_iff.mp member))
    rw [← keptTokens_of_silent silent]
    exact represented.imp fun token leaf represents => represents.says silent

end Assembly8085
