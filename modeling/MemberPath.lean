import MemberPath.Class.Declaration
import MemberPath.Class.Describe
import MemberPath.Path.Resolver
import MemberPath.Proofs.Requests
import MemberPath.Sample
import MemberPath.Text.Padded
import MemberPath.WordHash
import MemberPath.Proofs.CacheHistory
import MemberPath.Proofs.CallSteps
import MemberPath.Proofs.SharedCalls
import MemberPath.Proofs.Hierarchy
import MemberPath.Proofs.Reading
import MemberPath.Proofs.TypeSoundness
import MemberPath.Proofs.Dereference
import MemberPath.Proofs.BracketPattern
import MemberPath.Proofs.BracketRounds
import MemberPath.Proofs.ComponentRoundTrip
import MemberPath.Proofs.ComponentNormalForm
import MemberPath.Proofs.WalkComposition
import MemberPath.Proofs.ChainShape
import MemberPath.Proofs.Substitution
import MemberPath.Proofs.StrategyAgreement
import MemberPath.Proofs.NameLookup
import MemberPath.Proofs.TypeLookup
import MemberPath.Proofs.TwoNotations
import MemberPath.Proofs.FieldIndex
import MemberPath.Proofs.UpcastSearch
import MemberPath.Proofs.ToStringExclusion
import MemberPath.Proofs.ErrorPropagation
import MemberPath.Proofs.NameTokens
import MemberPath.Proofs.Notation
import MemberPath.Proofs.EntryPoints
import MemberPath.Proofs.Invocation
import MemberPath.Proofs.ResolutionLog
import MemberPath.Proofs.ListCopy
import MemberPath.Proofs.ByteLanes
import MemberPath.Proofs.ListNames
import MemberPath.Proofs.MapHistory
import MemberPath.Proofs.ArgumentCursor
