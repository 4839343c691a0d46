import Mootvote.Circom.Batching
import Mootvote.Circom.ChoiceRange
import Mootvote.Circom.Replay
import Mootvote.Circom.Selectors
import Mootvote.Circom.Vote
import Mootvote.Smt.Canonical
import Mootvote.Smt.Panics
import Mootvote.Smt.Persistent
import Mootvote.Relayer.Concurrent
import Mootvote.Indexer.ChunkBoundaries
import Mootvote.Indexer.LogBytes
import Mootvote.Indexer.LogTruncated
import Mootvote.Indexer.Restart
import Mootvote.Frontend.TallyRun
import Mootvote.Helpers.CompressSolana
import Mootvote.Helpers.JsonRoundTrip
import Mootvote.Helpers.MerkleTree
import Mootvote.Census.CanonicalKeys
import Mootvote.Program.Recorded
import Mootvote.Program.ConfigRent
import Mootvote.Program.Finishable
import Mootvote.Program.VoteData
import Mootvote.Program.Eligible
import Mootvote.Frontend.Vote
import Mootvote.Frontend.Revoting
import Mootvote.Shared.Balances
import Mootvote.Program.Lamports
import Mootvote.Program.AccountData
import Mootvote.Indexer.Polls
import Mootvote.Frontend.Auth
import Mootvote.Indexer.EventData
