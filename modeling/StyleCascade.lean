import StyleCascade.Main
import StyleCascade.Proofs.Answers
import StyleCascade.Proofs.ResolverRun
import StyleCascade.Proofs.HostRun
import StyleCascade.Proofs.Names
import StyleCascade.Proofs.StrictReading
import StyleCascade.Proofs.Brackets
import StyleCascade.Proofs.Expansion
import StyleCascade.Proofs.Renormalizing
import StyleCascade.Proofs.Segments
import StyleCascade.Proofs.LenientReading
import StyleCascade.Proofs.Agreement
import StyleCascade.Proofs.Mappings
import StyleCascade.Proofs.CascadeValues
import StyleCascade.Proofs.StrictGrammar
import StyleCascade.Proofs.Compilation
import StyleCascade.Proofs.DuplicateTargets
import StyleCascade.Proofs.IndependentRules
import StyleCascade.Proofs.Weights
import StyleCascade.Proofs.Narrowing
import StyleCascade.Proofs.TargetKeys
import StyleCascade.Proofs.ExpandedReading
import StyleCascade.Proofs.CanonicalForm
import StyleCascade.Proofs.ClauseContents
import StyleCascade.Proofs.UnknownContexts
import StyleCascade.Proofs.Utf8
import StyleCascade.Proofs.LongNumbers
import StyleCascade.Proofs.ReadingPlaces
import StyleCascade.Proofs.Loading
import StyleCascade.Proofs.CompiledOrder
import StyleCascade.Proofs.GrammarWeight
import StyleCascade.Proofs.PrintedClauses
import StyleCascade.Proofs.ClauseOrder
import StyleCascade.Proofs.CacheHistory
import StyleCascade.Proofs.PlainForm
import StyleCascade.Proofs.AnswerSources
import StyleCascade.Proofs.JoinedWeight
import StyleCascade.Proofs.OperatorOrder
import StyleCascade.Proofs.SelectorWarnings
import StyleCascade.Proofs.ErrorColumns
import StyleCascade.Proofs.ActiveNames
