import Pocket.Analysis.Supply
import Pocket.Analysis.ReadYourWrites
import Pocket.Analysis.NoCrash
import Pocket.Analysis.ParamTypes
import Pocket.Analysis.Unbonding
import Pocket.Analysis.AbandonedContexts
import Pocket.Analysis.StoredBlocks
import Pocket.Analysis.LeaderProposals
import Pocket.Analysis.HappyPath
import Pocket.Analysis.ViewOrder
import Pocket.Analysis.LeaderQuorum
import Pocket.Analysis.LeaderCertificate
import Pocket.Model.HandleProgram
import Pocket.Analysis.LostTransactions
import Pocket.Analysis.TreeRebuild
import Pocket.Analysis.FailedCommit
import Pocket.Analysis.RoundRobin
import Pocket.Analysis.Reaping
import Pocket.Analysis.MempoolAdmission
import Pocket.Analysis.HotstuffPoolBooks
import Pocket.Analysis.ProposerShares
import Pocket.Analysis.ValidatorBurns
import Pocket.Analysis.SafeNode
import Pocket.Analysis.RejectedMessages
import Pocket.Analysis.SessionDraw
import Pocket.Analysis.RelayChecks
import Pocket.Analysis.PrefixBounds
import Pocket.Analysis.Pages
import Pocket.Analysis.KeyImport
import Pocket.Analysis.StoreKeys
import Pocket.Analysis.ValidatorIds
import Pocket.Analysis.ProofSteps
